import Passhrs.Lib.Search
import Passhrs.Sftp.Rsync

/-!
# The line for an error

Without `-v` an error of `run` is one line: a class, found by keywords in the joined messages of the
chain, and the outermost message.

* **`classify_eq_least`**: the class of a chain is the least of the classes of its messages, each
  taken alone. So the order of the messages makes no difference to it, and a context that is put
  around an error can only move it to an earlier class.
-/

namespace Passhrs

open Search Text

/-! ## The function -/

/-- The classes, in the order in which they are tried. -/
inductive ErrorClass where
  | authentication
  | hostKey
  | connection
  | forwarding
  | proxyJump
  | unknown
deriving DecidableEq

namespace ErrorClass

def keywords : ErrorClass → List String
  | authentication =>
    ["authentication", "permission denied", "auth failed", "not authenticated"]
  | hostKey => ["host key", "host identification", "knownhosts", "known_hosts"]
  | connection =>
    ["connection refused", "connection timed out", "failed to connect", "connection reset", "dns",
      "resolve", "no route to host", "network is unreachable"]
  | forwarding => ["channel open", "forward", "sftp", "subsystem"]
  | proxyJump => ["proxyjump", "proxy jump"]
  | unknown => []

/-- The text holds a keyword of the class. -/
def foundIn (c : ErrorClass) (joined : String) : Bool := c.keywords.any (contains joined)

def text : ErrorClass → String
  | authentication => "authentication failed"
  | hostKey => "host key verification failed"
  | connection => "connection failed"
  | forwarding => "forwarding/sftp failed"
  | proxyJump => "ProxyJump failed"
  | unknown => ""

/-- The first of the classes that are there. -/
def first (found : ErrorClass → Bool) : ErrorClass :=
  if found authentication then authentication
  else if found hostKey then hostKey
  else if found connection then connection
  else if found forwarding then forwarding
  else if found proxyJump then proxyJump
  else unknown

def rank : ErrorClass → Nat
  | authentication => 0
  | hostKey => 1
  | connection => 2
  | forwarding => 3
  | proxyJump => 4
  | unknown => 5

def least (c d : ErrorClass) : ErrorClass := if c.rank ≤ d.rank then c else d

end ErrorClass

/-- The branch that `format_user_error` takes, where `lower` is `str::to_lowercase`. -/
def classify (lower : String → String) (chain : List String) : ErrorClass :=
  ErrorClass.first fun c => c.foundIn (lower (" | ".intercalate chain))

/-- `format_user_error`, for the messages of a chain from the outermost one on. -/
def formatUserError (lower : String → String) (chain : List String) : String :=
  let summary := chain.headD "unknown"
  match classify lower chain with
  | .unknown => s!"passhrs: {summary} (rerun with -vv for details)"
  | c => s!"passhrs: {c.text} ({summary})"

example : formatUserError id ["connection refused", "os error 111"]
    = "passhrs: connection failed (connection refused)" := by decide +kernel

/-! ## Classes -/

namespace ErrorClass

theorem first_or (found found' : ErrorClass → Bool) :
    first (fun c => found c || found' c) = least (first found) (first found') := by
  have hall : ∀ a b c d e a' b' c' d' e' : Bool,
      (if a || a' then authentication else if b || b' then hostKey
        else if c || c' then connection else if d || d' then forwarding
        else if e || e' then proxyJump else unknown) =
      least (if a then authentication else if b then hostKey else if c then connection
          else if d then forwarding else if e then proxyJump else unknown)
        (if a' then authentication else if b' then hostKey else if c' then connection
          else if d' then forwarding else if e' then proxyJump else unknown) := by
    decide +kernel
  exact hall _ _ _ _ _ _ _ _ _ _

/-- No keyword reaches over the separator. -/
theorem standalone_of_mem_keywords :
    ∀ c : ErrorClass, ∀ word ∈ c.keywords, Standalone '|' " | ".toList word.toList := by
  intro c
  cases c <;> decide

theorem foundIn_intercalate (c : ErrorClass) (parts : List String) :
    c.foundIn (" | ".intercalate parts) = parts.any c.foundIn := by
  rw [Bool.eq_iff_iff]
  unfold foundIn contains
  simp only [List.any_eq_true, decide_eq_true_eq, String.toList_intercalate]
  constructor
  · rintro ⟨word, hword, hinfix⟩
    obtain ⟨part, hpart, hin⟩ :=
      (infix_intercalate_iff (standalone_of_mem_keywords c word hword) _).mp hinfix
    obtain ⟨part, hmem, rfl⟩ := List.mem_map.mp hpart
    exact ⟨part, hmem, word, hword, hin⟩
  · rintro ⟨part, hmem, word, hword, hin⟩
    exact ⟨word, hword, (infix_intercalate_iff (standalone_of_mem_keywords c word hword) _).mpr
      ⟨part.toList, List.mem_map_of_mem hmem, hin⟩⟩

end ErrorClass

/-- Neither the space nor the bar has a case, or changes the one of what it separates. -/
def LowersParts (lower : String → String) : Prop :=
  ∀ chain : List String, lower (" | ".intercalate chain) = " | ".intercalate (chain.map lower)

section Chains

variable {lower : String → String}

theorem classify_cons (hlower : LowersParts lower) (message : String) (chain : List String) :
    classify lower (message :: chain) =
      (classify lower [message]).least (classify lower chain) := by
  unfold classify
  rw [← ErrorClass.first_or, hlower, hlower, hlower]
  refine congrArg ErrorClass.first (funext fun c => ?_)
  rw [c.foundIn_intercalate, c.foundIn_intercalate, c.foundIn_intercalate]
  simp

theorem classify_nil (hlower : LowersParts lower) : classify lower [] = .unknown := by
  have hempty : lower "" = "" := hlower []
  unfold classify
  rw [show " | ".intercalate [] = "" from rfl, hempty]
  decide

/-- **The class of an error is the least class of its messages**, whatever their number, and in
whatever order they come. -/
theorem classify_eq_least (hlower : LowersParts lower) (chain : List String) :
    classify lower chain =
        (chain.map fun message => classify lower [message]).foldr ErrorClass.least .unknown ∧
      ∀ chain', chain.Perm chain' → classify lower chain' = classify lower chain := by
  have hleast : ∀ chain, classify lower chain =
      (chain.map fun message => classify lower [message]).foldr ErrorClass.least .unknown := by
    intro chain
    induction chain with
    | nil => exact classify_nil hlower
    | cons message chain ih => rw [classify_cons hlower, ih, List.map_cons, List.foldr_cons]
  refine ⟨hleast chain, fun chain' hperm => ?_⟩
  have hcomm : LeftCommutative ErrorClass.least :=
    ⟨fun c d e => by cases c <;> cases d <;> cases e <;> rfl⟩
  rw [hleast, hleast]
  exact (hperm.symm.map _).foldr_eq _

theorem lowersParts_ascii : LowersParts toAsciiLowercase := by
  intro chain
  have hlist : ∀ s : String, (toAsciiLowercase s).toList = s.toList.map Char.toLower := fun s => by
    rw [toAsciiLowercase, String.toList_ofList]
  have hsep : " | ".toList.map Char.toLower = " | ".toList := by decide
  rw [← String.toList_inj, hlist]
  induction chain with
  | nil => rfl
  | cons message chain ih =>
    cases chain with
    | nil => simp [hlist]
    | cons next chain =>
      rw [List.map_cons] at ih
      rw [List.map_cons, List.map_cons, String.intercalate_cons_cons,
        String.intercalate_cons_cons, String.toList_append, String.toList_append, List.map_append,
        List.map_append, hsep, ih, String.toList_append, String.toList_append, hlist]

theorem classify_refused :
    classify toAsciiLowercase ["ProxyJump: failed to connect to jump host", "refused"] =
        (["ProxyJump: failed to connect to jump host", "refused"].map fun message =>
          classify toAsciiLowercase [message]).foldr ErrorClass.least .unknown ∧
      ∀ chain', ["ProxyJump: failed to connect to jump host", "refused"].Perm chain' →
        classify toAsciiLowercase chain' =
          classify toAsciiLowercase ["ProxyJump: failed to connect to jump host", "refused"] :=
  classify_eq_least lowersParts_ascii _

end Chains

end Passhrs
