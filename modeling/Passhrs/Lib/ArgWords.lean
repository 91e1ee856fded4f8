import Mathlib.Data.List.TakeWhile
import Mathlib.Tactic.Common

/-!
# Command lines with clustered short options

The words of a command line are read by the usual rules: a word with one dash is a cluster of short
flags, the last of which may be an option with a value; a word with two dashes is a long option; a
value is what is attached, or the next word if that is no option; after `--`, and after the first
word of the last positional argument, everything is positional.

* **`read_filter`**: leaving the words out that are nothing but one flag changes nothing else in
  what is read.
-/

namespace ArgWords

inductive Arity where
  | flag
  | value
deriving DecidableEq

structure Options where
  short : Char → Option Arity
  long : String → Option Arity

/-- What a word has been read as. -/
inductive Word where
  | shorts (flags : List Char)
  | shortsWith (flags : List Char) (option : Char) (value : String)
  | long (name : String)
  | longWith (name value : String)
  | escape
  | positional (word : String)
deriving DecidableEq

/-- An option whose value is the next word. -/
inductive Pending where
  | shorts (flags : List Char) (option : Char)
  | long (name : String)
deriving DecidableEq

def Pending.finish (value : String) : Pending → Word
  | .shorts flags option => .shortsWith flags option value
  | .long name => .longWith name value

/-- One word, where options are read. -/
inductive Token where
  | word (w : Word)
  | pending (p : Pending)
  | escape
  | positional
deriving DecidableEq

/-- The flags of a cluster, and the option at its end with what is attached to it. -/
def readCluster (O : Options) : List Char → Option (List Char × Option (Char × List Char))
  | [] => some ([], none)
  | c :: rest =>
    match O.short c with
    | none => none
    | some .value => some ([], some (c, rest))
    | some .flag => (readCluster O rest).map fun r => (c :: r.1, r.2)

/-- An attached value, which may have a `=` before it. -/
def attached : List Char → String
  | '=' :: value => .ofList value
  | value => .ofList value

def clusterToken (O : Options) (cluster : List Char) : Option Token :=
  match readCluster O cluster with
  | none => none
  | some (flags, none) => some (.word (.shorts flags))
  | some (flags, some (option, [])) => some (.pending (.shorts flags option))
  | some (flags, some (option, value)) => some (.word (.shortsWith flags option (attached value)))

def longToken (O : Options) (body : List Char) : Option Token :=
  let name := String.ofList (body.takeWhile (· ≠ '='))
  match O.long name, body.dropWhile (· ≠ '=') with
  | some .flag, [] => some (.word (.long name))
  | some .value, [] => some (.pending (.long name))
  | some .value, _ :: value => some (.word (.longWith name (.ofList value)))
  | _, _ => none

def token (O : Options) (word : String) : Option Token :=
  match word.toList with
  | ['-', '-'] => some .escape
  | '-' :: '-' :: body => longToken O body
  | '-' :: c :: rest => clusterToken O (c :: rest)
  | _ => some .positional

/-- A word that is not the value of an option before it. A dash alone can be one. -/
def isOption (word : String) : Bool :=
  match word.toList with
  | '-' :: _ :: _ => true
  | _ => false

/-- Where the reading is. -/
inductive Stage where
  /-- There are `before` positional words before the last positional argument. -/
  | options (before : Nat)
  | value (p : Pending) (before : Nat)
  | rest

/-- The words of a command line, from a stage on. -/
def read (O : Options) : Stage → List String → Option (List Word)
  | .options _, [] => some []
  | .rest, [] => some []
  | .value _ _, [] => none
  | .rest, word :: ws => (read O .rest ws).map (.positional word :: ·)
  | .value p before, word :: ws =>
    if isOption word then none else (read O (.options before) ws).map (p.finish word :: ·)
  | .options before, word :: ws =>
    match token O word with
    | none => none
    | some (.word w) => (read O (.options before) ws).map (w :: ·)
    | some (.pending p) => read O (.value p before) ws
    | some .escape => (read O .rest ws).map (.escape :: ·)
    | some .positional =>
      match before with
      | 0 => (read O .rest ws).map (.positional word :: ·)
      | before + 1 => (read O (.options before) ws).map (.positional word :: ·)

/-- What one word does: the stage after it, and what it has been read as. -/
def next (O : Options) : Stage → String → Option (Stage × List Word)
  | .rest, word => some (.rest, [.positional word])
  | .value p before, word =>
    if isOption word then none else some (.options before, [p.finish word])
  | .options before, word =>
    match token O word with
    | none => none
    | some (.word w) => some (.options before, [w])
    | some (.pending p) => some (.value p before, [])
    | some .escape => some (.rest, [.escape])
    | some .positional =>
      match before with
      | 0 => some (.rest, [.positional word])
      | before + 1 => some (.options before, [.positional word])

theorem read_cons (O : Options) (stage : Stage) (word : String) (args : List String) :
    read O stage (word :: args) =
      (next O stage word).bind fun r => (read O r.1 args).map (r.2 ++ ·) := by
  cases stage with
  | rest => rfl
  | value p before =>
    simp only [read, next]
    split_ifs <;> rfl
  | options before =>
    simp only [read, next]
    rcases token O word with _ | ⟨w | p | _ | _⟩
    · rfl
    · rfl
    · exact Option.map_id'.symm
    · rfl
    · cases before <;> rfl

/-! ## One flag -/

/-- The two words that are nothing but the flag. -/
def flagWords (short : Char) (long : String) : List String := [.ofList ['-', short], "--" ++ long]

/-- The word gives the flag. -/
def Word.Gives (short : Char) (long : String) : Word → Prop
  | .shorts flags | .shortsWith flags _ _ => short ∈ flags
  | .long name => name = long
  | .longWith _ _ | .escape | .positional _ => False

instance (short : Char) (long : String) : DecidablePred (Word.Gives short long)
  | .shorts flags => inferInstanceAs (Decidable (short ∈ flags))
  | .shortsWith flags _ _ => inferInstanceAs (Decidable (short ∈ flags))
  | .long name => inferInstanceAs (Decidable (name = long))
  | .longWith _ _ | .escape | .positional _ => inferInstanceAs (Decidable False)

/-- The word is nothing but the flag, or looks so where it is positional. -/
def Word.IsFlag (short : Char) (long : String) (w : Word) : Prop :=
  w = .shorts [short] ∨ w = .long long ∨ ∃ word ∈ flagWords short long, w = .positional word

instance (short : Char) (long : String) (w : Word) : Decidable (w.IsFlag short long) :=
  inferInstanceAs (Decidable (_ ∨ _ ∨ ∃ word ∈ flagWords short long, w = .positional word))

/-- The options know the flag by two names, and its words are no others. -/
structure IsFlagOf (O : Options) (short : Char) (long : String) : Prop where
  hshort : O.short short = some .flag
  hlong : O.long long = some .flag
  short_ne : short ≠ '-'
  long_ne : long ≠ ""
  notMem : '=' ∉ long.toList

section Flag

variable {O : Options} {short : Char} {long : String} {word : String}

theorem readCluster_flags {cluster flags : List Char}
    (h : readCluster O cluster = some (flags, none)) : cluster = flags := by
  induction cluster generalizing flags with
  | nil =>
    obtain ⟨rfl, -⟩ := Prod.mk.inj (Option.some.inj h)
    rfl
  | cons c rest ih =>
    rw [readCluster] at h
    split at h
    · cases h
    · cases h
    · obtain ⟨⟨flags', last⟩, hrest, hr⟩ := Option.map_eq_some_iff.mp h
      obtain ⟨rfl, rfl⟩ := Prod.mk.inj hr
      rw [ih hrest]

theorem clusterToken_word {cluster : List Char} {w : Word}
    (h : clusterToken O cluster = some (.word w)) :
    w = .shorts cluster ∨ ∃ flags option value, w = .shortsWith flags option value := by
  rw [clusterToken] at h
  split at h
  · cases h
  · next flags hread =>
    cases h
    exact .inl (by rw [readCluster_flags hread])
  · cases h
  · cases h
    exact .inr ⟨_, _, _, rfl⟩

theorem longToken_word {body : List Char} {w : Word} (h : longToken O body = some (.word w)) :
    w = .long (.ofList body) ∨ ∃ name value, w = .longWith name value := by
  rw [longToken] at h
  split at h
  · next hdrop =>
    cases h
    have hbody := List.takeWhile_append_dropWhile (p := (· ≠ '=')) (l := body)
    rw [hdrop, List.append_nil] at hbody
    exact .inl (by rw [hbody])
  · cases h
  · cases h
    exact .inr ⟨_, _, rfl⟩
  · cases h

theorem mem_flagWords : word ∈ flagWords short long ↔
    word.toList = ['-', short] ∨ word.toList = '-' :: '-' :: long.toList := by
  have hlong : ("--" ++ long).toList = '-' :: '-' :: long.toList := by
    rw [String.toList_append]
    rfl
  rw [flagWords, List.mem_cons, List.mem_singleton, ← String.toList_inj, ← String.toList_inj, hlong,
    String.toList_ofList]

theorem not_isFlag_of_token {w : Word} (h : token O word = some (.word w))
    (hword : word ∉ flagWords short long) : ¬ w.IsFlag short long := by
  rw [mem_flagWords, not_or] at hword
  rw [token] at h
  split at h
  · cases h
  · next body hbody =>
    rcases longToken_word h with rfl | ⟨name, value, rfl⟩
    · rintro (hw | hw | ⟨positional, -, hw⟩)
      · cases hw
      · cases hw
        exact hword.2 (by rw [hbody, String.toList_ofList])
      · cases hw
    · simp [Word.IsFlag]
  · next c rest hdash hcluster =>
    rcases clusterToken_word h with rfl | ⟨flags, option, value, rfl⟩
    · rintro (hw | hw | ⟨positional, -, hw⟩)
      · obtain ⟨rfl, rfl⟩ := List.cons.inj (Word.shorts.inj hw)
        exact hword.1 hcluster
      · cases hw
      · cases hw
    · simp [Word.IsFlag]
  · cases h

theorem token_flag (hflag : IsFlagOf O short long) (hword : word ∈ flagWords short long) :
    ∃ w, token O word = some (.word w) ∧ w.IsFlag short long := by
  rcases mem_flagWords.mp hword with hword | hword
  -- the short spelling is a cluster of one
  · refine ⟨.shorts [short], ?_, .inl rfl⟩
    have hcluster : clusterToken O [short] = some (.word (.shorts [short])) := by
      rw [clusterToken, readCluster, hflag.hshort]
      rfl
    rw [token, hword]
    split
    · next heq => exact absurd (List.cons.inj (List.cons.inj heq).2).1 hflag.short_ne
    · next heq => exact absurd (List.cons.inj (List.cons.inj heq).2).1 hflag.short_ne
    · next heq =>
      obtain ⟨rfl, rfl⟩ := List.cons.inj (List.cons.inj heq).2
      exact hcluster
    · next hne => exact absurd rfl (hne _ _)
  -- the long one has no `=` in it, so that all of it is the name
  · refine ⟨.long long, ?_, .inr (.inl rfl)⟩
    have hall : ∀ c ∈ long.toList, decide (c ≠ '=') = true := fun c hc =>
      decide_eq_true fun h => hflag.notMem (h ▸ hc)
    have hbody : longToken O long.toList = some (.word (.long long)) := by
      rw [longToken, List.takeWhile_eq_self_iff.mpr hall, List.dropWhile_eq_nil_iff.mpr hall,
        String.ofList_toList, hflag.hlong]
    rw [token, hword]
    split
    · next heq =>
      have hnil : long.toList = [] := (List.cons.inj (List.cons.inj heq).2).2
      exact absurd (String.toList_eq_nil_iff.mp hnil) hflag.long_ne
    · next heq =>
      obtain rfl := (List.cons.inj (List.cons.inj heq).2).2
      exact hbody
    · next hne heq =>
      obtain ⟨rfl, -⟩ := List.cons.inj (List.cons.inj heq).2
      exact absurd rfl hne
    · next hne => exact absurd rfl (hne _ _)

theorem isOption_flag (hword : word ∈ flagWords short long) : isOption word = true := by
  rw [isOption]
  rcases mem_flagWords.mp hword with hword | hword
  · rw [hword]
    rfl
  · rw [hword]
    rfl

theorem not_isFlag_finish (p : Pending) (value : String) :
    ¬ (p.finish value).IsFlag short long := by
  cases p <;> simp [Pending.finish, Word.IsFlag]

theorem isFlag_positional_iff :
    (Word.positional word).IsFlag short long ↔ word ∈ flagWords short long := by
  simp [Word.IsFlag]

/-- A word that is the flag is read as the flag, and leaves the stage as it is. -/
theorem next_flag (hflag : IsFlagOf O short long) {stage stage' : Stage} {ws : List Word}
    (hword : word ∈ flagWords short long) (h : next O stage word = some (stage', ws)) :
    stage' = stage ∧ ∀ w ∈ ws, w.IsFlag short long := by
  cases stage with
  | rest =>
    cases h
    exact ⟨rfl, by simpa [isFlag_positional_iff] using hword⟩
  | value p before =>
    rw [next, if_pos (isOption_flag hword)] at h
    cases h
  | options before =>
    obtain ⟨w, htoken, hw⟩ := token_flag hflag hword
    simp only [next, htoken] at h
    cases h
    exact ⟨rfl, by simpa using hw⟩

theorem next_of_notMem {stage stage' : Stage} {ws : List Word}
    (hword : word ∉ flagWords short long) (h : next O stage word = some (stage', ws)) :
    ∀ w ∈ ws, ¬ w.IsFlag short long := by
  have hpositional : ¬ (Word.positional word).IsFlag short long :=
    mt isFlag_positional_iff.mp hword
  cases stage with
  | rest =>
    cases h
    simpa using hpositional
  | value p before =>
    rw [next] at h
    split_ifs at h
    cases h
    simpa using not_isFlag_finish p word
  -- among the options, the word is what its token says
  | options before =>
    simp only [next] at h
    rcases htoken : token O word with _ | ⟨w | p | _ | _⟩
    · rw [htoken] at h
      cases h
    · rw [htoken] at h
      cases h
      simpa using not_isFlag_of_token htoken hword
    · rw [htoken] at h
      cases h
      simp
    · rw [htoken] at h
      cases h
      simp [Word.IsFlag]
    · rw [htoken] at h
      cases before with
      | zero =>
        cases h
        simpa using hpositional
      | succ before =>
        cases h
        simpa using hpositional

/-- **Leaving the flag out**: what is read of the other words is the same. -/
theorem read_filter (hflag : IsFlagOf O short long) {stage : Stage} {args : List String}
    {ws : List Word} (h : read O stage args = some ws) :
    read O stage (args.filter (· ∉ flagWords short long)) =
      some (ws.filter fun w => ¬ w.IsFlag short long) := by
  induction args generalizing stage ws with
  | nil =>
    cases stage with
    | options before =>
      cases h
      rfl
    | value p before => cases h
    | rest =>
      cases h
      rfl
  | cons word rest ih =>
    rw [read_cons] at h
    obtain ⟨⟨stage', ws₁⟩, hnext, hread⟩ := Option.bind_eq_some_iff.mp h
    obtain ⟨ws₂, hrest, rfl⟩ := Option.map_eq_some_iff.mp hread
    dsimp only at hrest ⊢
    rw [List.filter_append]
    by_cases hword : word ∈ flagWords short long
    · obtain ⟨rfl, hws⟩ := next_flag hflag hword hnext
      have hnone : (ws₁.filter fun w => ¬ w.IsFlag short long) = [] :=
        List.filter_eq_nil_iff.mpr (by simpa using hws)
      rw [List.filter_cons_of_neg (by simpa using hword), hnone]
      exact ih hrest
    · have hall : (ws₁.filter fun w => ¬ w.IsFlag short long) = ws₁ :=
        List.filter_eq_self.mpr (by simpa using next_of_notMem hword hnext)
      rw [List.filter_cons_of_pos (by simpa using hword), hall, read_cons, hnext, Option.bind_some,
        ih hrest]
      rfl

end Flag

end ArgWords
