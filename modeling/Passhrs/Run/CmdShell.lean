import Passhrs.Lib.Separators
import Passhrs.Run.Exec

/-!
# The payload for `cmd`

With `--shell cmd`, `rewrite_dollar_refs_for_cmd` walks over the bytes of the command, and the
variables of `--exec-env` are put in front of it as `set` commands with values that are quoted for
a Unix shell. The command is compared with its pieces, which are read from characters, and the
`set` commands with what `cmd` takes them for.

* **`rewriteDollarRefsForCmd_iff`**: the commands in which nothing but the references is rewritten.
* **`set_fragments_iff`**: the values that `cmd` assigns as they were given.
-/

namespace Passhrs

open Text

/-! ## The references of a command -/

/-- A letter of ASCII, or an underscore. -/
def isNameStart (c : Char) : Bool := c.isAlpha || c == '_'

/-- What may follow it in a name. -/
def isNameCont (c : Char) : Bool := c.isAlphanum || c == '_'

/-- A piece of a command: a dollar sign with the name behind it, or another character. -/
inductive DollarToken where
  | ref (name : List Char)
  | other (c : Char)
deriving DecidableEq

/-- The pieces of a command. A name is as long as it can be. -/
def dollarTokens : List Char → List DollarToken
  | [] => []
  | c :: rest =>
    if c = '$' ∧ rest.head?.any isNameStart then
      .ref (rest.takeWhile isNameCont) :: dollarTokens (rest.dropWhile isNameCont)
    else .other c :: dollarTokens rest
termination_by text => text.length
decreasing_by
  · exact Nat.lt_succ_of_le (List.length_dropWhile_le _ _)
  · exact Nat.lt_succ_self _

namespace DollarToken

/-- What a piece was read from. -/
def text : DollarToken → List Char
  | ref name => '$' :: name
  | other c => [c]

/-- What stands in its place for `cmd`: a name that is set, between percent signs. -/
def rewritten (names : List String) : DollarToken → List Char
  | ref name => if .ofList name ∈ names then '%' :: name ++ ['%'] else '$' :: name
  | other c => [c]

theorem rewritten_nil (token : DollarToken) : token.rewritten [] = token.text := by
  cases token with
  | ref name =>
    unfold rewritten
    exact if_neg List.not_mem_nil
  | other c => rfl

theorem ascii_rewritten_iff (names : List String) (token : DollarToken) :
    (∀ c ∈ token.rewritten names, c.toNat < 128) ↔ ∀ c ∈ token.text, c.toNat < 128 := by
  cases token with
  | ref name =>
    have hdollar : '$'.toNat < 128 := by decide
    have hpercent : '%'.toNat < 128 := by decide
    by_cases hname : .ofList name ∈ names
    · have hset : rewritten names (ref name) = '%' :: name ++ ['%'] := if_pos hname
      rw [hset, text, List.cons_append, List.forall_mem_cons, List.forall_mem_append,
        List.forall_mem_singleton, List.forall_mem_cons]
      exact ⟨fun h => ⟨hdollar, h.2.1⟩, fun h => ⟨hpercent, h.2, hpercent⟩⟩
    · have hunset : rewritten names (ref name) = '$' :: name := if_neg hname
      rw [hunset, text]
  | other c => rfl

end DollarToken

example : dollarTokens "$$A_1 $9".toList =
    [.other '$', .ref ['A', '_', '1'], .other ' ', .other '$', .other '9'] := by decide +kernel

/-- The pieces are the command, in order. -/
theorem flatMap_text_dollarTokens (l : List Char) :
    (dollarTokens l).flatMap DollarToken.text = l := by
  induction l using dollarTokens.induct with
  | case1 => rw [dollarTokens, List.flatMap_nil]
  | case2 c rest href ih =>
    rw [dollarTokens, if_pos href, List.flatMap_cons, ih, DollarToken.text, List.cons_append,
      List.takeWhile_append_dropWhile, href.1]
  | case3 c rest href ih =>
    rw [dollarTokens, if_neg href, List.flatMap_cons, ih]
    rfl

/-- The rewriting brings no character in that is not ASCII, and drops none. -/
theorem ascii_flatMap_rewritten_iff (names : List String) (l : List Char) :
    (∀ c ∈ (dollarTokens l).flatMap (DollarToken.rewritten names), c.toNat < 128) ↔
      ∀ c ∈ l, c.toNat < 128 := by
  rw [List.forall_mem_flatMap]
  simp only [DollarToken.ascii_rewritten_iff]
  rw [← List.forall_mem_flatMap, flatMap_text_dollarTokens]

/-! ## What the loop pushes -/

theorem sameClass_dollar : SameClass (· == 0x24) (· == '$') := by
  refine sameClass_of_ascii (by decide +kernel) (fun b hb => ?_) fun c hc => ?_
  · rw [eq_of_beq hb]
    decide
  · rw [eq_of_beq hc]
    decide

theorem lt_of_isNameCont {c : Char} (h : isNameCont c = true) : c.toNat < 128 := by
  have hbelow : ∀ high : Char, high.toNat < 128 → c.val ≤ high.val → c.toNat < 128 :=
    fun _ hhigh hle => Nat.lt_of_le_of_lt (UInt32.le_iff_toNat_le.mp hle) hhigh
  rcases Bool.or_eq_true_iff.mp h with h | h
  · rcases Bool.or_eq_true_iff.mp h with h | h
    · rcases Bool.or_eq_true_iff.mp h with h | h
      · exact hbelow 'Z' (by decide) (of_decide_eq_true h).2
      · exact hbelow 'z' (by decide) (of_decide_eq_true (Bool.and_eq_true_iff.mp h).2)
    · exact hbelow '9' (by decide) (of_decide_eq_true (Bool.and_eq_true_iff.mp h).2)
  · rw [eq_of_beq h]
    decide

theorem lt_of_isIdentCont {b : UInt8} (h : isIdentCont b = true) : b.toNat < 128 := by
  simp only [isIdentCont, isIdentStart, Bool.or_eq_true, Bool.and_eq_true, decide_eq_true_eq,
    beq_iff_eq, UInt8.le_iff_toNat_le] at h
  rcases h with ((h | h) | rfl) | h
  · exact Nat.lt_of_le_of_lt h.2 (by decide)
  · exact Nat.lt_of_le_of_lt h.2 (by decide)
  · decide
  · exact Nat.lt_of_le_of_lt h.2 (by decide)

theorem sameClass_identCont : SameClass isIdentCont isNameCont :=
  sameClass_of_ascii (by decide +kernel) (fun _ => lt_of_isIdentCont) fun _ => lt_of_isNameCont

theorem sameClass_identStart : SameClass isIdentStart isNameStart := by
  refine sameClass_of_ascii (by decide +kernel) (fun b hb => lt_of_isIdentCont ?_)
    fun c hc => lt_of_isNameCont ?_
  · rw [isIdentCont, hb, Bool.true_or]
  · rw [isNameStart, Bool.or_eq_true] at hc
    rcases hc with hc | hc
    · rw [isNameCont, Char.isAlphanum, hc, Bool.true_or, Bool.true_or]
    · rw [isNameCont, hc, Bool.or_true]

/-- What is pushed for a character that is kept: one for each of its bytes. -/
def pushed (c : Char) : List Char := (String.utf8EncodeChar c).map Char.ofUInt8

theorem pushed_of_lt {c : Char} (h : c.toNat < 128) : pushed c = [c] := by
  have hcode : ∀ n : Fin 128, Char.ofUInt8 (UInt8.ofNat n) = Char.ofNat n := by decide +kernel
  rw [pushed, utf8EncodeChar_of_lt h, List.map_singleton, hcode ⟨c.toNat, h⟩, Char.ofNat_toNat]

theorem length_pushed (c : Char) : (pushed c).length = c.utf8Size := by
  rw [pushed, List.length_map, String.length_utf8EncodeChar]

theorem flatMap_pushed_of_ascii {l : List Char} (h : ∀ c ∈ l, c.toNat < 128) :
    l.flatMap pushed = l := by
  induction l with
  | nil => rfl
  | cons c l ih =>
    rw [List.flatMap_cons, pushed_of_lt (h c List.mem_cons_self),
      ih fun d hd => h d (List.mem_cons_of_mem c hd), List.singleton_append]

theorem pushed_ne_nil (c : Char) : pushed c ≠ [] := fun hnil =>
  String.utf8EncodeChar_ne_nil (List.map_eq_nil_iff.mp hnil)

/-- Text comes out as it was if it is ASCII: of another character there are several bytes. -/
theorem flatMap_pushed_eq_iff {l : List Char} :
    l.flatMap pushed = l ↔ ∀ c ∈ l, c.toNat < 128 := by
  refine ⟨fun heq => ?_, flatMap_pushed_of_ascii⟩
  induction l with
  | nil => exact fun c hc => absurd hc List.not_mem_nil
  | cons c l ih =>
    have hlength := congrArg List.length heq
    have hrest := length_le_flatMap pushed_ne_nil l
    rw [List.flatMap_cons, List.length_append, length_pushed, List.length_cons] at hlength
    have hc : c.toNat < 128 := by
      have hsize : c.utf8Size = 1 := by
        have := c.utf8Size_pos
        omega
      exact Nat.lt_succ_of_le (Char.utf8Size_eq_one_iff.mp hsize)
    rw [List.flatMap_cons, pushed_of_lt hc, List.singleton_append] at heq
    exact List.forall_mem_cons.mpr ⟨hc, ih (List.tail_eq_of_cons_eq heq)⟩

section Loop

variable (names : List String)

/-- The bytes of a name that has been written are passed over. -/
theorem rewriteDollarRefs_skip (front rest : Bytes) :
    rewriteDollarRefs names front.length (front ++ rest) = rewriteDollarRefs names 0 rest := by
  induction front with
  | nil => rfl
  | cons b front ih => exact ih

/-- A byte that is not the dollar sign is pushed. -/
theorem rewriteDollarRefs_append {front : Bytes} (h : ∀ b ∈ front, (b == 0x24) = false)
    (rest : Bytes) :
    rewriteDollarRefs names 0 (front ++ rest) =
      front.map Char.ofUInt8 ++ rewriteDollarRefs names 0 rest := by
  induction front with
  | nil => rfl
  | cons b front ih =>
    obtain ⟨hb, hfront⟩ := List.forall_mem_cons.mp h
    rw [List.cons_append, rewriteDollarRefs, if_neg fun href => ne_of_beq_false hb href.1,
      ih hfront]
    rfl

theorem any_utf8_iff (name : List Char) :
    (names.any (utf8 · = name.flatMap String.utf8EncodeChar)) = true ↔ .ofList name ∈ names := by
  have hname : name.flatMap String.utf8EncodeChar = utf8 (.ofList name) := by
    rw [utf8, String.toList_ofList]
  simp only [hname, utf8_inj, List.any_eq_true, decide_eq_true_eq, exists_eq_right]

section Piece

variable {rest : List Char}

/-- A name behind a dollar sign is one piece. -/
theorem rewriteDollarRefs_ref (hstart : rest.head?.any isNameStart) :
    rewriteDollarRefs names 0 (('$' :: rest).flatMap String.utf8EncodeChar) =
      (DollarToken.ref (rest.takeWhile isNameCont)).rewritten names ++
        rewriteDollarRefs names 0
          ((rest.dropWhile isNameCont).flatMap String.utf8EncodeChar) := by
  set name := rest.takeWhile isNameCont with hname
  set tail := rest.dropWhile isNameCont with htail
  let nameBytes := name.flatMap String.utf8EncodeChar
  have hrest : rest.flatMap String.utf8EncodeChar =
      nameBytes ++ tail.flatMap String.utf8EncodeChar := by
    rw [← List.flatMap_append, List.takeWhile_append_dropWhile]
  have htake : (rest.flatMap String.utf8EncodeChar).takeWhile isIdentCont = nameBytes :=
    sameClass_identCont.takeWhile_flatMap rest
  have hhead : (rest.flatMap String.utf8EncodeChar).head?.any isIdentStart = true :=
    (sameClass_identStart.head?_flatMap rest).trans hstart
  have hcont : ∀ c ∈ name, isNameCont c = true := fun c hc => List.mem_takeWhile_imp hc
  have hpushed : nameBytes.map Char.ofUInt8 = name := by
    rw [List.map_flatMap]
    exact flatMap_pushed_of_ascii fun c hc => lt_of_isNameCont (hcont c hc)
  show rewriteDollarRefs names 0 (0x24 :: rest.flatMap String.utf8EncodeChar) = _
  rw [rewriteDollarRefs, htake, hhead]
  by_cases hmem : .ofList name ∈ names
  · have hset : (DollarToken.ref name).rewritten names = '%' :: name ++ ['%'] := if_pos hmem
    rw [if_pos ⟨rfl, rfl, (any_utf8_iff names name).mpr hmem⟩, hrest, rewriteDollarRefs_skip,
      hpushed, hset, List.append_assoc, List.singleton_append]
  · have hunset : (DollarToken.ref name).rewritten names = '$' :: name := if_neg hmem
    -- the name is read again, byte by byte, and has no dollar sign
    have hkept : ∀ b ∈ nameBytes, (b == 0x24) = false := by
      intro b hb
      obtain ⟨c, hc, hb⟩ := List.mem_flatMap.mp hb
      have hne : c ≠ '$' := fun heq => absurd (hcont c hc) (by rw [heq]; decide)
      exact (sameClass_dollar c b hb).trans (beq_false_of_ne hne)
    rw [if_neg fun href => hmem ((any_utf8_iff names name).mp href.2.2), hrest,
      rewriteDollarRefs_append names hkept, hpushed, hunset]
    rfl

/-- Another character is pushed as its bytes. -/
theorem rewriteDollarRefs_other {c : Char} (h : ¬ (c = '$' ∧ rest.head?.any isNameStart)) :
    rewriteDollarRefs names 0 ((c :: rest).flatMap String.utf8EncodeChar) =
      pushed c ++ rewriteDollarRefs names 0 (rest.flatMap String.utf8EncodeChar) := by
  by_cases hc : c = '$'
  · subst hc
    have hhead : ¬ (rest.flatMap String.utf8EncodeChar).head?.any isIdentStart = true := by
      rw [sameClass_identStart.head?_flatMap rest]
      exact fun hstart => h ⟨rfl, hstart⟩
    show rewriteDollarRefs names 0 (0x24 :: rest.flatMap String.utf8EncodeChar) = _
    rw [rewriteDollarRefs, if_neg fun href => hhead href.2.1]
    rfl
  · exact rewriteDollarRefs_append names
      (fun b hb => (sameClass_dollar c b hb).trans (beq_false_of_ne hc)) _

end Piece

/-- The loop over the bytes writes the pieces of the command, each character as its bytes. -/
theorem rewriteDollarRefs_eq (l : List Char) :
    rewriteDollarRefs names 0 (l.flatMap String.utf8EncodeChar) =
      ((dollarTokens l).flatMap (DollarToken.rewritten names)).flatMap pushed := by
  induction l using dollarTokens.induct with
  | case1 => rw [dollarTokens]; rfl
  | case2 c rest href ih =>
    obtain ⟨rfl, hstart⟩ := href
    have hascii : ∀ c ∈ (DollarToken.ref (rest.takeWhile isNameCont)).rewritten names,
        c.toNat < 128 := by
      rw [DollarToken.ascii_rewritten_iff, DollarToken.text, List.forall_mem_cons]
      exact ⟨by decide, fun c hc => lt_of_isNameCont (List.mem_takeWhile_imp hc)⟩
    rw [rewriteDollarRefs_ref names hstart, ih, dollarTokens, if_pos ⟨rfl, hstart⟩,
      List.flatMap_cons, List.flatMap_append, flatMap_pushed_of_ascii hascii]
  | case3 c rest href ih =>
    rw [rewriteDollarRefs_other names href, ih, dollarTokens, if_neg href, List.flatMap_cons,
      List.flatMap_append, DollarToken.rewritten, List.flatMap_singleton]

end Loop

/-- **Only the references are rewritten**: for every command and every list of names,
`rewrite_dollar_refs_for_cmd` returns the command with its references to these names between
percent signs and everything else as it was, if and only if the list is empty or the command is
ASCII. -/
theorem rewriteDollarRefsForCmd_iff (cmd : String) (envNames : List String) :
    rewriteDollarRefsForCmd cmd envNames =
        .ofList ((dollarTokens cmd.toList).flatMap (DollarToken.rewritten envNames)) ↔
      envNames = [] ∨ ∀ c ∈ cmd.toList, c.toNat < 128 := by
  unfold rewriteDollarRefsForCmd
  by_cases hnames : envNames = []
  · subst hnames
    have htext : DollarToken.rewritten [] = DollarToken.text := funext DollarToken.rewritten_nil
    rw [if_pos rfl, htext, flatMap_text_dollarTokens, String.ofList_toList]
    exact iff_of_true rfl (.inl rfl)
  · rw [if_neg hnames, utf8, rewriteDollarRefs_eq, String.ofList_inj, flatMap_pushed_eq_iff,
      ascii_flatMap_rewritten_iff, or_iff_right hnames]

/-- A byte is pushed as a character, so that an umlaut comes out as two. -/
theorem umlaut_is_two_characters :
    rewriteDollarRefsForCmd "echo ü$X" ["X"] = "echo Ã¼%X%" ∧
      rewriteDollarRefsForCmd "echo ü$X" ["X"] ≠
        .ofList ((dollarTokens "echo ü$X".toList).flatMap (DollarToken.rewritten ["X"])) := by
  decide +kernel

/-! ## The variables that are set -/

/-- How `shell_escape::escape` quotes on Unix: text of safe characters stays, other text is put
between single quotes. A double quote is not brought in. -/
structure UnixEscape (safe : Char → Bool) (escape : String → String) : Prop where
  of_safe : ∀ s, s ≠ "" → (∀ c ∈ s.toList, safe c = true) → escape s = s
  of_not_safe : ∀ s, ∀ c ∈ s.toList, safe c = false →
    ∃ body, escape s = "'" ++ body ++ "'" ∧ s.length ≤ body.length
  quote_notMem : ∀ s, '"' ∉ s.toList → '"' ∉ (escape s).toList

theorem UnixEscape.eq_self_iff {safe : Char → Bool} {escape : String → String}
    (h : UnixEscape safe escape) (s : String) :
    escape s = s ↔ (∀ c ∈ s.toList, safe c = true) ∧ (s = "" → escape "" = "") := by
  constructor
  · refine fun hself => ⟨fun c hc => ?_, fun hnil => hnil ▸ hself⟩
    by_contra hrisky
    obtain ⟨body, hbody, hlength⟩ := h.of_not_safe s c hc (Bool.eq_false_iff.mpr hrisky)
    have hquotes := congrArg String.length (hself.symm.trans hbody)
    simp only [String.length_append] at hquotes
    have hquote : ("'" : String).length = 1 := rfl
    omega
  · rintro ⟨hsafe, hempty⟩
    by_cases hnil : s = ""
    · rw [hnil]
      exact hempty hnil
    · exact h.of_safe s hnil hsafe

/-- What a fragment assigns by the rule of `cmd`: the text between the first equals sign and the
closing quote, to the name in front of it. -/
def readSet (fragment : String) : Option (String × String) := do
  let quoted ← Text.stripPrefix "set \"" fragment
  let (text, behind) ← rsplitOnce '"' quoted
  if behind = "" then splitOnce '=' text else none

theorem readSet_eq_some_iff {fragment name value : String} :
    readSet fragment = some (name, value) ↔
      fragment = "set \"" ++ (name ++ "=" ++ value ++ "\"") ∧ '=' ∉ name.toList := by
  constructor
  · intro hread
    obtain ⟨quoted, hquoted, hread⟩ := Option.bind_eq_some_iff.mp hread
    obtain ⟨⟨text, behind⟩, htext, hread⟩ := Option.bind_eq_some_iff.mp hread
    dsimp only at hread
    split at hread
    · next hbehind =>
      obtain ⟨rfl, hname⟩ := splitOnce_eq_some_iff.mp hread
      obtain ⟨rfl, -⟩ := rsplitOnce_eq_some_iff.mp htext
      rw [stripPrefix_eq_some_iff.mp hquoted, hbehind, String.append_empty]
      exact ⟨rfl, hname⟩
    · cases hread
  · rintro ⟨rfl, hname⟩
    have htext : rsplitOnce '"' (name ++ "=" ++ value ++ "\"") =
        some (name ++ "=" ++ value, "") := by
      have hempty : '"' ∉ ("" : String).toList := List.not_mem_nil
      have hcut := rsplitOnce_append (name ++ "=" ++ value) hempty
      rwa [String.append_empty] at hcut
    rw [readSet, Text.stripPrefix_append, Option.bind_eq_bind, Option.bind_some, htext]
    exact splitOnce_append hname value

/-- A payload that begins with a fragment for each variable, in order. -/
inductive BeginsWithSets : String → List (String × String) → Prop where
  | done (payload : String) : BeginsWithSets payload []
  | set {fragment payload : String} {var : String × String} {vars : List (String × String)}
      (hread : readSet fragment = some var) (hrest : BeginsWithSets payload vars) :
      BeginsWithSets (fragment ++ " & " ++ payload) (var :: vars)

/-- A spec with the value of its variable. The value has no character that `cmd` reads inside
quotes, and no end of a line. -/
structure Assignment where
  name : String
  value : String
  name_ok : '=' ∉ name.toList
  value_ok : ∀ c ∈ value.toList, c ∉ ['"', '%', '\n', '\r']

namespace Assignment

def spec (a : Assignment) : String := a.name ++ "=" ++ a.value

def var (a : Assignment) : String × String := (a.name, a.value)

theorem quote_notMem (a : Assignment) : '"' ∉ a.value.toList := fun h =>
  a.value_ok _ h List.mem_cons_self

theorem execEnvVar_spec (env : String → Option String) (a : Assignment) :
    execEnvVar env a.spec = some a.var := by
  have hname : ∀ c ∈ a.name.toList, (c != '=') = true := fun c hc =>
    bne_iff_ne.mpr (ne_of_mem_of_not_mem hc a.name_ok)
  have hlist : a.spec.toList = a.name.toList ++ '=' :: a.value.toList := by
    simp [spec]
  rw [execEnvVar, hlist, if_pos (by simp), List.takeWhile_append_of_pos hname,
    List.dropWhile_append_of_pos hname, List.takeWhile_cons_of_neg (by simp),
    List.dropWhile_cons_of_neg (by simp), List.append_nil, String.ofList_toList]
  show some (_, String.ofList a.value.toList) = _
  rw [String.ofList_toList]
  rfl

/-- The fragment for an assignment assigns its value if the value is what is written. -/
theorem beginsWithSets_cons_iff (a : Assignment) {text : String} (htext : '"' ∉ text.toList)
    {payload : String} {vars : List (String × String)} :
    BeginsWithSets ("set \"" ++ a.name ++ "=" ++ text ++ "\"" ++ " & " ++ payload)
        (a.var :: vars) ↔
      text = a.value ∧ BeginsWithSets payload vars := by
  constructor
  · intro h
    generalize hwhole : "set \"" ++ a.name ++ "=" ++ text ++ "\"" ++ " & " ++ payload = whole at h
    cases h with
    | @set _ rest _ _ hread hrest =>
      obtain ⟨rfl, -⟩ := readSet_eq_some_iff.mp hread
      have hbehind : text ++ "\"" ++ (" & " ++ payload) = a.value ++ "\"" ++ (" & " ++ rest) := by
        simpa only [String.append_assoc, String.append_right_inj] using hwhole
      obtain ⟨htext, hpayload⟩ := append_singleton_inj htext a.quote_notMem hbehind
      rw [String.append_right_inj] at hpayload
      exact ⟨htext, hpayload ▸ hrest⟩
  · rintro ⟨rfl, hrest⟩
    refine BeginsWithSets.set (readSet_eq_some_iff.mpr ⟨?_, a.name_ok⟩) hrest
    simp only [String.append_assoc]

end Assignment

section Payload

variable (env : String → Option String) (escape : String → String) (cli : Cli)

/-- The command line with the specs for `cmd`. -/
def Cli.withSets (assignments : List Assignment) : Cli :=
  { cli with shell := .cmd, execEnv := assignments.map Assignment.spec }

/-- What `build_exec_env_prefix` returns for `cmd`, one part after the other. -/
theorem buildExecEnvPrefix_cons (part : String) (parts : List String) :
    buildExecEnvPrefix (part :: parts) .cmd =
      part ++ " & " ++ buildExecEnvPrefix parts .cmd := by
  cases parts with
  | nil =>
    simp [buildExecEnvPrefix]
  | cons next parts =>
    simp [buildExecEnvPrefix, String.append_assoc]

theorem exists_execPayload (assignments : List Assignment) :
    ∃ rest, execPayload env escape (cli.withSets assignments) =
      buildExecEnvPrefix
        (assignments.map fun a => execEnvPart escape .cmd a.name a.value) .cmd ++ rest := by
  have hvars : (assignments.map Assignment.spec).filterMap (execEnvVar env) =
      assignments.map Assignment.var := by
    rw [List.filterMap_map, ← List.filterMap_eq_map]
    exact List.filterMap_congr fun a _ => a.execEnvVar_spec env
  unfold execPayload Cli.withSets
  dsimp only
  rw [hvars, List.map_map]
  split
  · exact ⟨_, rfl⟩
  · exact ⟨_, rfl⟩

variable {escape}

/-- The payload begins with the assignments if the escaper leaves every value as it is. -/
theorem beginsWithSets_execPayload_iff
    (hquote : ∀ s, '"' ∉ s.toList → '"' ∉ (escape s).toList) (assignments : List Assignment) :
    BeginsWithSets (execPayload env escape (cli.withSets assignments))
        (assignments.map Assignment.var) ↔
      ∀ a ∈ assignments, escape a.value = a.value := by
  obtain ⟨rest, hpayload⟩ := exists_execPayload env escape cli assignments
  rw [hpayload]
  clear hpayload
  induction assignments with
  | nil => exact iff_of_true (.done _) fun a ha => absurd ha List.not_mem_nil
  | cons a assignments ih =>
    rw [List.map_cons, List.map_cons, buildExecEnvPrefix_cons, String.append_assoc,
      List.forall_mem_cons, ← ih]
    exact a.beginsWithSets_cons_iff (hquote _ a.quote_notMem)

end Payload

/-- **What `cmd` assigns**: for every list of specs with values that `cmd` takes as they stand, the
payload begins with a `set` for each of them, in order, that assigns its value, if and only if the
values are ones that the escaper does not quote. -/
theorem set_fragments_iff {safe : Char → Bool} {escape : String → String}
    (hescape : UnixEscape safe escape) (env : String → Option String) (cli : Cli)
    (assignments : List Assignment) :
    BeginsWithSets (execPayload env escape (cli.withSets assignments))
        (assignments.map Assignment.var) ↔
      ∀ a ∈ assignments,
        (∀ c ∈ a.value.toList, safe c = true) ∧ (a.value = "" → escape "" = "") := by
  rw [beginsWithSets_execPayload_iff env cli hescape.quote_notMem]
  exact forall₂_congr fun a _ => hescape.eq_self_iff a.value

/-- The safe characters of `shell_escape` on Unix. -/
def unixSafe (c : Char) : Bool := c.isAlphanum || ['-', '_', '=', '/', ',', '.', '+'].contains c

def unixQuoted (c : Char) : List Char :=
  if c = '\x27' ∨ c = '!' then ['\x27', '\\', c, '\x27'] else [c]

theorem unixQuoted_ne_nil (c : Char) : unixQuoted c ≠ [] := by
  unfold unixQuoted
  split <;> exact List.cons_ne_nil _ _

theorem quote_of_mem_unixQuoted {c : Char} (h : '"' ∈ unixQuoted c) : c = '"' := by
  unfold unixQuoted at h
  split at h
  · next hc =>
    rcases hc with rfl | rfl
    · exact absurd h (by decide)
    · exact absurd h (by decide)
  · exact (List.mem_singleton.mp h).symm

def unixEscape (s : String) : String :=
  if s ≠ "" ∧ s.toList.all unixSafe then s
  else "'" ++ .ofList (s.toList.flatMap unixQuoted) ++ "'"

theorem unixEscape_ok : UnixEscape unixSafe unixEscape where
  of_safe s hne hsafe := if_pos ⟨hne, List.all_eq_true.mpr hsafe⟩
  of_not_safe s c hc hrisky := by
    have hnot : ¬ (s ≠ "" ∧ s.toList.all unixSafe) := fun h =>
      absurd (List.all_eq_true.mp h.2 c hc) (by rw [hrisky]; decide)
    refine ⟨_, if_neg hnot, ?_⟩
    rw [String.length_ofList, ← String.length_toList]
    exact length_le_flatMap unixQuoted_ne_nil _
  quote_notMem s hs := by
    unfold unixEscape
    split
    · exact hs
    · simp only [String.toList_append, String.toList_ofList, List.mem_append, not_or]
      refine ⟨⟨by decide, fun hmem => ?_⟩, by decide⟩
      obtain ⟨c, hc, hmem⟩ := List.mem_flatMap.mp hmem
      exact hs (quote_of_mem_unixQuoted hmem ▸ hc)

theorem two_variables_are_set :
    BeginsWithSets
      (execPayload (fun _ => none) unixEscape
        ((Cli.ofCommand ["run"]).withSets
          [⟨"A", "x=1", by decide, by simp⟩, ⟨"B", "/tmp", by decide, by simp⟩]))
      [("A", "x=1"), ("B", "/tmp")] := by
  refine (set_fragments_iff unixEscape_ok _ _ _).mpr ?_
  simp only [List.forall_mem_cons]
  exact ⟨⟨List.all_eq_true.mp (by decide), by decide⟩,
    ⟨List.all_eq_true.mp (by decide), by decide⟩, by simp⟩

/-- The single quotes that keep a value together for `sh` are part of it for `cmd`. -/
theorem space_is_quoted :
    execPayload (fun _ => none) unixEscape
        ((Cli.ofCommand ["run"]).withSets [⟨"V", "a b", by decide, by simp⟩]) =
      "set \"V='a b'\" & cmd /c \"run\"" ∧
    ¬ BeginsWithSets
      (execPayload (fun _ => none) unixEscape
        ((Cli.ofCommand ["run"]).withSets [⟨"V", "a b", by decide, by simp⟩]))
      [("V", "a b")] := by
  refine ⟨by decide +kernel, fun h => ?_⟩
  have hvalue := (beginsWithSets_execPayload_iff _ _ unixEscape_ok.quote_notMem _).mp h
  exact absurd (hvalue _ List.mem_cons_self) (by decide +kernel)

end Passhrs
