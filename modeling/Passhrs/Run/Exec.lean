import Passhrs.Lib.Text
import Passhrs.Run.Cli

/-!
# What is executed

The string that `run` executes on a session channel of its own: the command, behind the variables
of `--exec-env`, in the syntax of the remote shell. The variables of the local process are `env`,
and `shell_escape::escape` is `escape`.

* **`execPayload_of_no_vars`**: without a variable to set, it is the command.
* **`length_lt_execPayload`**: with one, it is longer.
-/

namespace Passhrs

open Text

/-! ## Rewriting for `cmd` -/

def isIdentStart (b : UInt8) : Bool :=
  (0x41 ≤ b && b ≤ 0x5a) || (0x61 ≤ b && b ≤ 0x7a) || b == 0x5f

def isIdentCont (b : UInt8) : Bool := isIdentStart b || (0x30 ≤ b && b ≤ 0x39)

/-- The loop of `rewrite_dollar_refs_for_cmd`. `skip` counts the bytes of a name that has been
written, and a byte is pushed `as char`. -/
def rewriteDollarRefs (envNames : List String) : Nat → Bytes → List Char
  | _, [] => []
  | skip + 1, _ :: bytes => rewriteDollarRefs envNames skip bytes
  | 0, b :: bytes =>
    let name := bytes.takeWhile isIdentCont
    if b = 0x24 ∧ bytes.head?.any isIdentStart ∧ envNames.any (utf8 · = name) then
      '%' :: name.map Char.ofUInt8 ++ '%' :: rewriteDollarRefs envNames name.length bytes
    else Char.ofUInt8 b :: rewriteDollarRefs envNames 0 bytes

/-- `rewrite_dollar_refs_for_cmd`. -/
def rewriteDollarRefsForCmd (cmd : String) (envNames : List String) : String :=
  if envNames = [] then cmd else .ofList (rewriteDollarRefs envNames 0 (utf8 cmd))

/-- `user.replace('"', r#"\""#)`. -/
def escapeQuotes (user : String) : String :=
  .ofList (user.toList.flatMap fun c => if c = '"' then ['\\', '"'] else [c])

/-! ## The payload -/

/-- The name and the value that a spec of `--exec-env` stands for, if the variable is set. -/
def execEnvVar (env : String → Option String) (spec : String) : Option (String × String) :=
  if spec.toList.contains '=' then
    some (.ofList (spec.toList.takeWhile (· != '=')),
      .ofList ((spec.toList.dropWhile (· != '=')).drop 1))
  else (env spec).map fun v => (spec, v)

/-- What is pushed to `parts`. -/
def execEnvPart (escape : String → String) (shell : Shell) (name value : String) : String :=
  match shell with
  | .cmd => "set \"" ++ name ++ "=" ++ escape value ++ "\""
  | .sh => "export " ++ name ++ "=" ++ escape value

/-- `build_exec_env_prefix`. -/
def buildExecEnvPrefix (parts : List String) (shell : Shell) : String :=
  if parts = [] then ""
  else
    match shell with
    | .cmd => " & ".intercalate parts ++ " & "
    | .sh => "; ".intercalate parts ++ "; "

/-- `full`, for a command that is not empty. -/
def execPayload (env : String → Option String) (escape : String → String) (cli : Cli) : String :=
  let vars := cli.execEnv.filterMap (execEnvVar env)
  let parts := vars.map fun (name, value) => execEnvPart escape cli.shell name value
  let execEnvNames := vars.map Prod.fst
  let envPrefix := buildExecEnvPrefix parts cli.shell
  let cmd := " ".intercalate cli.command
  let cmd :=
    match cli.shell with
    | .cmd => rewriteDollarRefsForCmd cmd execEnvNames
    | .sh => cmd
  let full := envPrefix ++ cmd
  if cli.shell = .cmd ∧ parts ≠ [] then envPrefix ++ ("cmd /c \"" ++ (escapeQuotes cmd ++ "\""))
  else full

/-! ## Its length -/

theorem length_utf8_append (s t : String) :
    (utf8 (s ++ t)).length = (utf8 s).length + (utf8 t).length := by
  rw [utf8_append, List.length_append]

/-- Every character takes a byte. -/
theorem length_le_length_utf8 (l : List Char) :
    l.length ≤ (l.flatMap String.utf8EncodeChar).length :=
  length_le_flatMap (fun _ => String.utf8EncodeChar_ne_nil) l

/-- The rewriting drops no byte: it writes a character for each. -/
theorem length_le_rewriteDollarRefs (envNames : List String) (skip : Nat) (bytes : Bytes) :
    bytes.length ≤ (rewriteDollarRefs envNames skip bytes).length + skip := by
  induction bytes generalizing skip with
  | nil => exact Nat.zero_le _
  | cons b bytes ih =>
    cases skip with
    | succ skip =>
      have ih := ih skip
      rw [rewriteDollarRefs, List.length_cons]
      omega
    | zero =>
      rw [rewriteDollarRefs]
      split
      · -- the name is written before it is skipped
        have ih := ih (bytes.takeWhile isIdentCont).length
        simp only [List.length_cons, List.length_append, List.length_map]
        omega
      · have ih := ih 0
        simp only [List.length_cons]
        omega

theorem length_utf8_le_rewrite (cmd : String) (envNames : List String) :
    (utf8 cmd).length ≤ (utf8 (rewriteDollarRefsForCmd cmd envNames)).length := by
  unfold rewriteDollarRefsForCmd
  split
  · exact Nat.le_refl _
  · have hchars := length_le_rewriteDollarRefs envNames 0 (utf8 cmd)
    have hbytes := length_le_length_utf8 (rewriteDollarRefs envNames 0 (utf8 cmd))
    rw [utf8.eq_1 (.ofList _), String.toList_ofList]
    omega

theorem length_utf8_le_escapeQuotes (user : String) :
    (utf8 user).length ≤ (utf8 (escapeQuotes user)).length := by
  unfold escapeQuotes utf8
  rw [String.toList_ofList]
  induction user.toList with
  | nil => exact Nat.le_refl 0
  | cons c l ih =>
    simp only [List.flatMap_cons, List.flatMap_append, List.length_append]
    refine Nat.add_le_add ?_ ih
    split
    · next hc =>
      subst hc
      decide
    · simp

theorem pos_length_buildExecEnvPrefix {parts : List String} (h : parts ≠ []) (shell : Shell) :
    0 < (utf8 (buildExecEnvPrefix parts shell)).length := by
  unfold buildExecEnvPrefix
  rw [if_neg h]
  cases shell with
  | cmd =>
    have hsep : (utf8 " & ").length = 3 := by decide
    rw [length_utf8_append]
    omega
  | sh =>
    have hsep : (utf8 "; ").length = 2 := by decide
    rw [length_utf8_append]
    omega

section Payload

variable {env : String → Option String} {cli : Cli}

/-- Without a variable to set, the payload is the command as it was typed. -/
theorem execPayload_of_no_vars (escape : String → String)
    (h : cli.execEnv.filterMap (execEnvVar env) = []) :
    execPayload env escape cli = " ".intercalate cli.command := by
  unfold execPayload
  rw [h]
  cases cli.shell <;> simp [buildExecEnvPrefix, rewriteDollarRefsForCmd]

/-- With a variable to set, the payload is longer than the command. -/
theorem length_lt_execPayload (escape : String → String)
    (h : cli.execEnv.filterMap (execEnvVar env) ≠ []) :
    (utf8 (" ".intercalate cli.command)).length < (utf8 (execPayload env escape cli)).length := by
  unfold execPayload
  set vars := cli.execEnv.filterMap (execEnvVar env)
  have hparts : ∀ shell, (vars.map fun (name, value) => execEnvPart escape shell name value) ≠ [] :=
    fun shell => by simpa using h
  have hprefix := fun shell => pos_length_buildExecEnvPrefix (hparts shell) shell
  cases cli.shell with
  | sh =>
    have hprefix := hprefix .sh
    rw [if_neg (by simp), length_utf8_append]
    show _ < _ + (utf8 (" ".intercalate cli.command)).length
    omega
  | cmd =>
    have hprefix := hprefix .cmd
    let cmd := rewriteDollarRefsForCmd (" ".intercalate cli.command) (vars.map Prod.fst)
    have hrewrite : _ ≤ (utf8 cmd).length := length_utf8_le_rewrite _ _
    have hescape := length_utf8_le_escapeQuotes cmd
    rw [if_pos ⟨rfl, hparts .cmd⟩, length_utf8_append, length_utf8_append, length_utf8_append]
    show _ < _ + (_ + ((utf8 (escapeQuotes cmd)).length + _))
    omega

end Payload

end Passhrs
