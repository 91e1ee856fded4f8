import Passhrs.Lib.Attempts
import Passhrs.Run.Cli

/-!
# Authentication

`authenticate`, which a run calls for its own connections, and `authenticate_fwd`, which the
forwarding tasks call for theirs. russh's `load_secret_key` and the server are not part of the
program.

* **`authenticate_triesInOrder`**: the credentials are tried in order up to the first accepted one.
* **`authenticate_agrees_iff`**: the two functions agree unless the server accepts a user without
  any credential, which only `authenticate_fwd` asks for.
-/

namespace Passhrs

open Effects

/-- `russh::keys::HashAlg`. -/
inductive HashAlg where
  | sha256
  | sha512
deriving DecidableEq

/-- What is asked of the server: `authenticate_publickey`, `authenticate_none` and
`authenticate_password`. -/
inductive AuthOp (Key : Type) where
  | publickey (user : String) (key : Key) (algo : Option HashAlg)
  | none (user : String)
  | password (user password : String)
deriving DecidableEq

/-- Whether the server accepts. An error is one of the transport. -/
abbrev AuthOp.Res {Key : Type} (_ : AuthOp Key) : Type := Except String Bool

abbrev AuthM (Key : Type) : Type → Type := Action (AuthOp Key) AuthOp.Res String

/-- `load_secret_key`, and `algorithm().is_rsa()` of what it loads. -/
structure KeyLoader (Key : Type) where
  loadSecretKey : String → Option String → Except String Key
  isRsa : Key → Bool

variable {Key : Type} (keys : KeyLoader Key) (user : String) (cli : Cli)
  (password passphrase : Option String) (identityFiles : List String)

/-! ## The program -/

/-- `algos`. -/
def hashAlgs (isRsa : Bool) : List (Option HashAlg) :=
  if isRsa then [some .sha512, some .sha256, none] else [none]

/-- The loop over the hash algorithms of a key, which ends at the first success. -/
def tryHashAlgs (key : Key) : List (Option HashAlg) → AuthM Key Bool
  | [] => pure false
  | algo :: algos => do
    let success ← call (.publickey user key algo) id
    if success then pure true else tryHashAlgs key algos

/-- The loop over the identity files. A key that cannot be loaded is passed over. -/
def tryIdentityFiles : List String → AuthM Key Bool
  | [] => pure false
  | k :: identityFiles =>
    match keys.loadSecretKey k passphrase with
    | .ok pk => do
      let succeeded ← tryHashAlgs user pk (hashAlgs (keys.isRsa pk))
      if succeeded then pure true else tryIdentityFiles identityFiles
    | .error _ => tryIdentityFiles identityFiles

/-- The password, if there is one. -/
def tryPassword : Option String → AuthM Key Bool
  | none => pure false
  | some pw => call (.password user pw) id

/-- `authenticate`. -/
def authenticate : AuthM Key Unit := do
  let byKey ← tryIdentityFiles keys user passphrase cli.identityFile
  if byKey then pure () else
    let byPassword ← tryPassword user password
    if byPassword then pure () else throw "Authentication failed"

/-- `authenticate_fwd`. -/
def authenticateFwd : AuthM Key Unit := do
  let byKey ← tryIdentityFiles keys user passphrase identityFiles
  if byKey then pure () else
    let byNone ← call (.none user) id
    if byNone then pure () else
      let byPassword ← tryPassword user password
      if byPassword then pure () else throw "Auth (fwd) failed"

/-! ## The chain of credentials -/

/-- What a key file is good for: nothing when it cannot be loaded. -/
def keyAttempts (identityFile : String) : List (AuthOp Key) :=
  match keys.loadSecretKey identityFile passphrase with
  | .ok key =>
    if keys.isRsa key then
      [.publickey user key (some .sha512), .publickey user key (some .sha256),
        .publickey user key none]
    else [.publickey user key none]
  | .error _ => []

/-- All credentials in the order of the command line, the password last. -/
def credentialChain : List (AuthOp Key) :=
  identityFiles.flatMap (keyAttempts keys user passphrase) ++
    (password.map (AuthOp.password user)).toList

theorem tryHashAlgs_eq (key : Key) (algos : List (Option HashAlg)) :
    tryHashAlgs user key algos = firstAccepted (algos.map (AuthOp.publickey user key)) := by
  induction algos with
  | nil => rfl
  | cons algo algos ih =>
    rw [tryHashAlgs, ih]
    rfl

theorem tryIdentityFiles_eq :
    tryIdentityFiles keys user passphrase identityFiles =
      firstAccepted (identityFiles.flatMap (keyAttempts keys user passphrase)) := by
  induction identityFiles with
  | nil => rfl
  | cons k identityFiles ih =>
    rw [tryIdentityFiles, List.flatMap_cons, keyAttempts, ih]
    cases hload : keys.loadSecretKey k passphrase with
    | error message => rfl
    | ok pk =>
      dsimp only
      rw [firstAccepted_append, tryHashAlgs_eq]
      cases hrsa : keys.isRsa pk with
      | true => rfl
      | false => rfl

theorem tryPassword_eq :
    (tryPassword user password : AuthM Key Bool) =
      firstAccepted (password.map (AuthOp.password user)).toList := by
  cases password with
  | none => rfl
  | some pw => exact (firstAccepted_singleton _).symm

theorem authenticate_eq :
    authenticate keys user cli password passphrase = requireAccepted "Authentication failed"
      (credentialChain keys user password passphrase cli.identityFile) := by
  rw [authenticate, requireAccepted, tryIdentityFiles_eq, credentialChain, firstAccepted_append,
    bind_assoc]
  refine bind_congr fun byKey => ?_
  rw [tryPassword_eq]
  cases byKey with
  | true => rfl
  | false => rfl

/-- The other function also asks for no authentication, before it sends the password. -/
def forwardChain : List (AuthOp Key) :=
  identityFiles.flatMap (keyAttempts keys user passphrase) ++
    .none user :: (password.map (AuthOp.password user)).toList

theorem authenticateFwd_eq :
    authenticateFwd keys user password passphrase identityFiles = requireAccepted
      "Auth (fwd) failed" (forwardChain keys user password passphrase identityFiles) := by
  rw [authenticateFwd, requireAccepted, tryIdentityFiles_eq, forwardChain, firstAccepted_append,
    bind_assoc]
  refine bind_congr fun byKey => ?_
  cases byKey with
  | true => rfl
  | false =>
    show _ = firstAccepted (AuthOp.none user :: _) >>= _
    rw [firstAccepted, bind_assoc]
    refine bind_congr fun byNone => ?_
    rw [tryPassword_eq]
    cases byNone with
    | true => rfl
    | false => rfl

/-! ## The order of the attempts -/

/-- Keys for the examples: a file whose name is empty cannot be loaded, and `rsa` is one. -/
def namedKeys : KeyLoader String where
  loadSecretKey := fun path _ => if path = "" then .error "no such file" else .ok path
  isRsa := fun key => key = "rsa"

def threeIdentities : Cli :=
  { Cli.ofCommand [] with identityFile := ["", "rsa", "ed25519"] }

section Runs

variable {σ : Type}

/-- **The credentials are tried in order up to the first that is accepted**, whatever the server
answers: each key that can be loaded, three times if it is an RSA key, and then the password. -/
theorem authenticate_triesInOrder (h : Handler (AuthOp Key) AuthOp.Res σ) (s : σ)
    (hok : ∀ e ∈ execLog h (authenticate keys user cli password passphrase) s, ∃ b, e.2 = .ok b) :
    TriesInOrder (credentialChain keys user password passphrase cli.identityFile)
      (execLog h (authenticate keys user cli password passphrase) s)
      ((exec h (authenticate keys user cli password passphrase) s).1 = .ok ()) := by
  rw [authenticate_eq] at hok ⊢
  exact requireAccepted_inOrder hok

/-- Two of the three keys can be loaded, and the server knows the second of them. -/
theorem authenticate_triesInOrder_ed25519 :
    TriesInOrder
      (credentialChain namedKeys "root" (some "secret") none threeIdentities.identityFile)
      (execLog (answering (· = .publickey "root" "ed25519" none))
        (authenticate namedKeys "root" threeIdentities (some "secret") none) ())
      ((exec (answering (· = .publickey "root" "ed25519" none))
        (authenticate namedKeys "root" threeIdentities (some "secret") none) ()).1 = .ok ()) := by
  refine authenticate_triesInOrder _ _ _ _ _ _ _ fun e he => ?_
  obtain ⟨s', hanswer⟩ := Prog.answer_of_mem_log he
  exact ⟨_, hanswer⟩

/-! ## The two functions side by side -/

/-- **The two functions agree unless the server takes the user without any credential**: only
`authenticate_fwd` asks for that. -/
theorem authenticate_agrees_iff (accepts : AuthOp Key → Bool) (s : σ) :
    ((exec (answering accepts) (authenticate keys user cli password passphrase) s).1 = .ok () ↔
        (exec (answering accepts)
          (authenticateFwd keys user password passphrase cli.identityFile) s).1 = .ok ()) ↔
      (accepts (.none user) = true →
        ∃ op ∈ credentialChain keys user password passphrase cli.identityFile,
          accepts op = true) := by
  have hchain : (∃ op ∈ forwardChain keys user password passphrase cli.identityFile,
        accepts op = true) ↔
      accepts (.none user) = true ∨
        ∃ op ∈ credentialChain keys user password passphrase cli.identityFile,
          accepts op = true := by
    simp only [forwardChain, credentialChain, List.mem_append, List.mem_cons, or_and_right,
      exists_or, exists_eq_left]
    exact or_left_comm
  rw [authenticate_eq, authenticateFwd_eq, requireAccepted_answering, requireAccepted_answering,
    hchain]
  constructor
  · exact fun hagree hnone => hagree.mpr (.inl hnone)
  · exact fun hcond => ⟨.inr, fun haccepted => haccepted.elim hcond id⟩

end Runs

/-- A server that takes everyone without a credential, and nothing else. -/
def acceptsNone {Key : Type} : AuthOp Key → Bool
  | .none _ => true
  | _ => false

/-- `authenticate` never asks it. -/
theorem authenticate_never_asks_none :
    (exec (answering acceptsNone)
        (authenticate namedKeys "root" (Cli.ofCommand []) none none) ()).1 =
        .error "Authentication failed" ∧
      (exec (answering acceptsNone) (authenticateFwd namedKeys "root" none none []) ()).1 =
        .ok () :=
  ⟨rfl, rfl⟩

end Passhrs
