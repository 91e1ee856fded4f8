import Passhrs.Lib.ArgWords

/-!
# `-f` starts the program again

`run` decides by the parsed flag, and gives a new process the arguments without the words that are
the flag.

* **`fork_ends_iff`**: when the new process does not fork again.
* **`fork_forever`**: otherwise each process starts one more.
* **`fork_keeps_fields_iff`**: when the other fields of `Cli` are the same in the new process.
-/

namespace Passhrs

open ArgWords

/-! ## The options -/

/-- An `#[arg]` with a name. -/
structure CliArg where
  short : Option Char
  long : String
  arity : Arity

/-- The named fields of `Cli`. `-V`, which clap adds, ends the program. -/
def cliArgs : List CliArg :=
  [⟨some 'p', "port", .value⟩, ⟨some 'F', "config", .value⟩, ⟨some 'Q', "query", .value⟩,
    ⟨some 'l', "user", .value⟩, ⟨some 'i', "key", .value⟩, ⟨some 'J', "proxy-jump", .value⟩,
    ⟨some '4', "ipv4", .flag⟩, ⟨some '6', "ipv6", .flag⟩, ⟨some 'A', "forward-agent", .flag⟩,
    ⟨some 'a', "no-forward-agent", .flag⟩, ⟨some 'C', "compress", .flag⟩,
    ⟨some 'D', "dynamic-forward", .value⟩, ⟨some 'H', "http-proxy-connect", .value⟩,
    ⟨some 'v', "verbose", .flag⟩, ⟨some 'q', "quiet", .flag⟩, ⟨some 'E', "log-file", .value⟩,
    ⟨some 'o', "option", .value⟩, ⟨some 'N', "no-command", .flag⟩, ⟨some 't', "tty", .flag⟩,
    ⟨some 'T', "no-pty", .flag⟩, ⟨some 'L', "local-forward", .value⟩,
    ⟨some 'g', "gateway-ports", .flag⟩, ⟨some 'b', "bind", .value⟩,
    ⟨some 'B', "bind-interface", .value⟩, ⟨some 'y', "accept-all-hosts", .flag⟩,
    ⟨some 'R', "remote-forward", .value⟩, ⟨none, "identity-passphrase", .value⟩,
    ⟨none, "identity-passphrase-file", .value⟩, ⟨none, "password", .value⟩,
    ⟨none, "password-file", .value⟩, ⟨some 'S', "control-path", .value⟩,
    ⟨some 'O', "control-command", .value⟩, ⟨none, "connect-timeout", .value⟩,
    ⟨none, "timeout", .value⟩, ⟨some 'n', "redirect-stdin", .flag⟩, ⟨some 'f', "fork", .flag⟩,
    ⟨none, "exec-env", .value⟩, ⟨some 'c', "cipher-spec", .value⟩, ⟨some 'm', "mac-spec", .value⟩,
    ⟨none, "shell", .value⟩, ⟨none, "help", .flag⟩, ⟨none, "push", .value⟩, ⟨none, "pull", .value⟩,
    ⟨none, "rsync", .value⟩, ⟨none, "rsync-opt", .value⟩, ⟨none, "debug-all", .flag⟩,
    ⟨some 'G', "print-config", .value⟩, ⟨some 'e', "escape-char", .value⟩,
    ⟨some 'X', "x11-forward", .flag⟩, ⟨some 'x', "disable-x11-forward", .flag⟩,
    ⟨some 'Y', "x11-forward-trusted", .flag⟩, ⟨some 'W', "stdio-forward", .value⟩]

def cliOptions : Options where
  short c := (cliArgs.find? fun arg => arg.short = some c).map CliArg.arity
  long name := (cliArgs.find? fun arg => arg.long = name).map CliArg.arity

/-- What clap has to say about the words that it has read: their values, and which of them may not
come twice. -/
structure Clap where
  accepts : List Word → Bool
  /-- No field of `Cli` is required and none conflicts with the absence of another one. -/
  accepts_sublist : ∀ {words words'}, words'.Sublist words → accepts words → accepts words'

/-- `Cli::parse`, without the name of the program. The destination is the one positional word before
the command, which has all words after its first one. -/
def parseArgs (clap : Clap) (args : List String) : Option (List Word) :=
  (read cliOptions (.options 1) args).filter clap.accepts

/-- `cli.fork`. -/
def Forks (words : List Word) : Prop := ∃ w ∈ words, w.Gives 'f' "fork"

/-- What the new process gets: `args[1..]`, which panics when there is nothing left. -/
def respawnArgs (program : String) (args : List String) : Option (List String) :=
  match (program :: args).filter fun a => a ≠ "-f" ∧ a ≠ "--fork" with
  | [] => none
  | _ :: rest => some rest

/-! ## The words that are left -/

section Fork

variable {clap : Clap} {program : String} {args : List String} {words : List Word}

theorem isFlagOf_fork : IsFlagOf cliOptions 'f' "fork" where
  hshort := by decide +kernel
  hlong := by decide +kernel
  short_ne := by decide
  long_ne := by decide
  notMem := by decide

theorem respawnArgs_eq (hprogram : program ≠ "-f" ∧ program ≠ "--fork") :
    respawnArgs program args = some (args.filter (· ∉ flagWords 'f' "fork")) := by
  have hwords : flagWords 'f' "fork" = ["-f", "--fork"] := by decide
  rw [respawnArgs, List.filter_cons_of_pos (by simpa using hprogram)]
  simp [hwords]

theorem parseArgs_respawn (hparse : parseArgs clap args = some words) :
    parseArgs clap (args.filter (· ∉ flagWords 'f' "fork")) =
      some (words.filter fun w => ¬ w.IsFlag 'f' "fork") := by
  obtain ⟨hread, haccepts⟩ := Option.filter_eq_some_iff.mp hparse
  rw [parseArgs, read_filter isFlagOf_fork hread]
  exact Option.filter_eq_some_iff.mpr
    ⟨rfl, clap.accepts_sublist List.filter_sublist haccepts⟩

/-- A word that gives the flag and is left out is a word of its own. -/
theorem isFlag_iff_of_gives {w : Word} (hw : w.Gives 'f' "fork") :
    w.IsFlag 'f' "fork" ↔ w = .shorts ['f'] ∨ w = .long "fork" := by
  refine ⟨?_, fun h => h.imp_right .inl⟩
  rintro (h | h | ⟨word, -, rfl⟩)
  · exact .inl h
  · exact .inr h
  · exact hw.elim

/-- What is left gives the flag when a word does that has more in it. -/
theorem forks_filter_iff : Forks (words.filter fun w => ¬ w.IsFlag 'f' "fork") ↔
    ∃ w ∈ words, w.Gives 'f' "fork" ∧ ¬ (w = .shorts ['f'] ∨ w = .long "fork") := by
  simp only [Forks, List.mem_filter, decide_eq_true_eq]
  constructor
  · rintro ⟨w, ⟨hw, hflag⟩, hgives⟩
    exact ⟨w, hw, hgives, mt (isFlag_iff_of_gives hgives).mpr hflag⟩
  · rintro ⟨w, hw, hgives, hflag⟩
    exact ⟨w, ⟨hw, mt (isFlag_iff_of_gives hgives).mp hflag⟩, hgives⟩

end Fork

/-! ## The new process -/

/-- **When the new process ends the forking**: its arguments parse, and the flag is not set, exactly
when no word has the flag in it among others. -/
theorem fork_ends_iff {clap : Clap} {program : String} {args : List String} {words : List Word}
    (hprogram : program ≠ "-f" ∧ program ≠ "--fork") (hparse : parseArgs clap args = some words) :
    (∃ args' words', respawnArgs program args = some args' ∧ parseArgs clap args' = some words' ∧
      ¬ Forks words') ↔
      ∀ w ∈ words, w.Gives 'f' "fork" → w = .shorts ['f'] ∨ w = .long "fork" := by
  have hchild := parseArgs_respawn hparse
  constructor
  · rintro ⟨args', words', hargs, hwords, hforks⟩ w hw hgives
    rw [respawnArgs_eq hprogram] at hargs
    obtain rfl := Option.some.inj hargs
    obtain rfl := Option.some.inj (hwords.symm.trans hchild)
    by_contra hother
    exact hforks (forks_filter_iff.mpr ⟨w, hw, hgives, hother⟩)
  · intro hall
    refine ⟨_, _, respawnArgs_eq hprogram, hchild, fun hforks => ?_⟩
    obtain ⟨w, hw, hgives, hother⟩ := forks_filter_iff.mp hforks
    exact hother (hall w hw hgives)

/-- A clap that has something to say about this flag only. -/
def clapOnce : Clap where
  accepts words := (words.filter fun w => w.Gives 'f' "fork").length ≤ 1
  accepts_sublist h haccepts := by
    have hle := (h.filter fun w => w.Gives 'f' "fork").length_le
    exact decide_eq_true (hle.trans (of_decide_eq_true haccepts))

theorem fork_alone_ends :
    ∃ args' words', respawnArgs "passhrs" ["-f", "-p22", "db", "rm", "-f", "old"] = some args' ∧
      parseArgs clapOnce args' = some words' ∧ ¬ Forks words' := by
  have hparse : parseArgs clapOnce ["-f", "-p22", "db", "rm", "-f", "old"] =
      some [.shorts ['f'], .shortsWith [] 'p' "22", .positional "db", .positional "rm",
        .positional "-f", .positional "old"] := by decide +kernel
  exact (fork_ends_iff (by decide) hparse).mpr (by decide)

/-- The new process gets the same arguments. -/
theorem cluster_forks_again :
    parseArgs clapOnce ["-Nf", "db"] = some [.shorts ['N', 'f'], .positional "db"] ∧
      Forks [.shorts ['N', 'f'], .positional "db"] ∧
      respawnArgs "passhrs" ["-Nf", "db"] = some ["-Nf", "db"] :=
  ⟨by decide +kernel, ⟨_, List.mem_cons_self, by decide⟩, by decide⟩

/-- The arguments of a process and of the ones that are started from it, one from the other. The
`n`-th one has the name `program n`. -/
def generation (program : Nat → String) (args : List String) : Nat → Option (List String)
  | 0 => some args
  | n + 1 => (generation program args n).bind (respawnArgs (program n))

/-- **A flag in a cluster forks forever**: each process starts one more. -/
theorem fork_forever {clap : Clap} {program : Nat → String} {args : List String} {words : List Word}
    (hprogram : ∀ n, program n ≠ "-f" ∧ program n ≠ "--fork")
    (hparse : parseArgs clap args = some words) {w : Word} (hw : w ∈ words)
    (hgives : w.Gives 'f' "fork") (hother : ¬ (w = .shorts ['f'] ∨ w = .long "fork")) (n : Nat) :
    ∃ args' words', generation program args n = some args' ∧
      parseArgs clap args' = some words' ∧ Forks words' := by
  have hstep : ∀ n, ∃ args' words', generation program args n = some args' ∧
      parseArgs clap args' = some words' ∧ w ∈ words' := by
    intro n
    induction n with
    | zero => exact ⟨args, words, rfl, hparse, hw⟩
    | succ n ih =>
      obtain ⟨args', words', hargs, hwords, hmem⟩ := ih
      refine ⟨_, _, ?_, parseArgs_respawn hwords, List.mem_filter.mpr ⟨hmem, ?_⟩⟩
      · rw [generation, hargs, Option.bind_some, respawnArgs_eq (hprogram n)]
      · exact decide_eq_true (mt (isFlag_iff_of_gives hgives).mp hother)
  obtain ⟨args', words', hargs, hwords, hmem⟩ := hstep n
  exact ⟨args', words', hargs, hwords, w, hmem, hgives⟩

/-! ## The other fields -/

/-- What a word gives to an argument: `none` each time that a flag comes, or a value. -/
def CliArg.givenBy (arg : CliArg) : Word → List (Option String)
  | .shorts flags => (flags.filter (arg.short = some ·)).map fun _ => none
  | .shortsWith flags option value =>
    ((flags.filter (arg.short = some ·)).map fun _ => none) ++
      if arg.short = some option then [some value] else []
  | .long name => if name = arg.long then [none] else []
  | .longWith name value => if name = arg.long then [some value] else []
  | .escape | .positional _ => []

/-- What an argument is given, in order: the field of `Cli` is made of this. -/
def CliArg.given (arg : CliArg) (words : List Word) : List (Option String) :=
  words.flatMap arg.givenBy

/-- `destination`, and `command` behind it. -/
def positionals (words : List Word) : List String :=
  words.filterMap fun
    | .positional word => some word
    | _ => none

/-- Two processes with the same `Cli`, but for `fork`. -/
structure SameButFork (words words' : List Word) : Prop where
  options : ∀ arg ∈ cliArgs, arg.long ≠ "fork" → arg.given words' = arg.given words
  destination : (positionals words').head? = (positionals words).head?
  command : (positionals words').tail = (positionals words).tail

theorem short_of_mem_cliArgs {arg : CliArg} (harg : arg ∈ cliArgs) (hlong : arg.long ≠ "fork") :
    arg.short ≠ some 'f' := by
  revert hlong
  revert arg
  decide +kernel

theorem givenBy_isFlag {arg : CliArg} (harg : arg ∈ cliArgs) (hlong : arg.long ≠ "fork") {w : Word}
    (hw : w.IsFlag 'f' "fork") : arg.givenBy w = [] := by
  rcases hw with rfl | rfl | ⟨word, -, rfl⟩
  · simp [CliArg.givenBy, short_of_mem_cliArgs harg hlong]
  · exact if_neg hlong.symm
  · rfl

/-- The words that are left out give nothing to the other arguments. -/
theorem given_filter {arg : CliArg} (harg : arg ∈ cliArgs) (hlong : arg.long ≠ "fork")
    (words : List Word) :
    arg.given (words.filter fun w => ¬ w.IsFlag 'f' "fork") = arg.given words := by
  induction words with
  | nil => rfl
  | cons w words ih =>
    by_cases hw : w.IsFlag 'f' "fork"
    · rw [List.filter_cons_of_neg (by simpa using hw), ih]
      simp [CliArg.given, givenBy_isFlag harg hlong hw]
    · rw [List.filter_cons_of_pos (by simpa using hw)]
      exact congrArg (arg.givenBy w ++ ·) ih

theorem mem_positionals {words : List Word} {word : String} :
    word ∈ positionals words ↔ .positional word ∈ words := by
  rw [positionals, List.mem_filterMap]
  constructor
  · rintro ⟨w, hw, hword⟩
    split at hword
    · cases hword
      exact hw
    · cases hword
  · exact fun h => ⟨_, h, rfl⟩

theorem positionals_filter (words : List Word) :
    positionals (words.filter fun w => ¬ w.IsFlag 'f' "fork") =
      (positionals words).filter (· ∉ flagWords 'f' "fork") := by
  simp only [positionals, List.filterMap_filter, List.filter_filterMap]
  congr 1
  funext w
  cases w with
  | positional word =>
    simp only [isFlag_positional_iff]
    rfl
  | shorts flags => simp
  | shortsWith flags option value => simp
  | long name => simp
  | longWith name value => simp
  | escape => simp

theorem eq_of_head?_of_tail {l l' : List String} (hhead : l'.head? = l.head?)
    (htail : l'.tail = l.tail) : l' = l := by
  cases l' with
  | nil => exact (List.head?_eq_none_iff.mp hhead.symm).symm
  | cons a l' =>
    obtain ⟨rest, rfl⟩ := List.head?_eq_some_iff.mp hhead.symm
    exact congrArg (a :: ·) htail

theorem sameButFork_filter_iff {words : List Word} :
    SameButFork words (words.filter fun w => ¬ w.IsFlag 'f' "fork") ↔
      ∀ word, .positional word ∈ words → word ∉ flagWords 'f' "fork" := by
  have hall : (∀ word, .positional word ∈ words → word ∉ flagWords 'f' "fork") ↔
      (positionals words).filter (· ∉ flagWords 'f' "fork") = positionals words := by
    simp [List.filter_eq_self, mem_positionals]
  -- the options agree in any case, so it is down to the positional words
  rw [hall, ← positionals_filter]
  constructor
  · exact fun h => eq_of_head?_of_tail h.destination h.command
  · exact fun h => ⟨fun arg harg hlong => given_filter harg hlong words, by rw [h], by rw [h]⟩

/-- **Backgrounding changes nothing else** exactly when no word of the destination or of the command
is `-f` or `--fork`: then the new process has the same in every other field. -/
theorem fork_keeps_fields_iff {clap : Clap} {program : String} {args : List String}
    {words : List Word} (hprogram : program ≠ "-f" ∧ program ≠ "--fork")
    (hparse : parseArgs clap args = some words) :
    (∃ args' words', respawnArgs program args = some args' ∧ parseArgs clap args' = some words' ∧
      SameButFork words words') ↔
      ∀ word, .positional word ∈ words → word ∉ flagWords 'f' "fork" := by
  rw [respawnArgs_eq hprogram, ← sameButFork_filter_iff]
  constructor
  · rintro ⟨args', words', hargs, hwords, hsame⟩
    obtain rfl := Option.some.inj hargs
    obtain rfl := Option.some.inj (hwords.symm.trans (parseArgs_respawn hparse))
    exact hsame
  · exact fun hsame => ⟨_, _, rfl, parseArgs_respawn hparse, hsame⟩

/-- `passhrs -f db rm -f old` runs `rm old`. -/
theorem fork_loses_command_word :
    let words : List Word :=
      [.shorts ['f'], .positional "db", .positional "rm", .positional "-f", .positional "old"]
    parseArgs clapOnce ["-f", "db", "rm", "-f", "old"] = some words ∧ Forks words ∧
      ∃ words', (respawnArgs "passhrs" ["-f", "db", "rm", "-f", "old"]).bind (parseArgs clapOnce) =
          some words' ∧
        (positionals words').tail = ["rm", "old"] ∧ ¬ SameButFork words words' := by
  exact ⟨by decide +kernel, ⟨_, List.mem_cons_self, by decide⟩,
    [.positional "db", .positional "rm", .positional "old"], by decide +kernel, by decide,
    fun h => absurd h.command (by decide)⟩

theorem fork_keeps_fields_of_ls :
    ∃ args' words', respawnArgs "passhrs" ["-f", "-p22", "db", "ls", "-l"] = some args' ∧
      parseArgs clapOnce args' = some words' ∧
      SameButFork [.shorts ['f'], .shortsWith [] 'p' "22", .positional "db", .positional "ls",
        .positional "-l"] words' := by
  have hparse : parseArgs clapOnce ["-f", "-p22", "db", "ls", "-l"] =
      some [.shorts ['f'], .shortsWith [] 'p' "22", .positional "db", .positional "ls",
        .positional "-l"] := by decide +kernel
  refine (fork_keeps_fields_iff (by decide) hparse).mpr fun word hword => ?_
  rw [← mem_positionals] at hword
  revert word
  decide

end Passhrs
