import Mathlib.Data.UInt

/-!
# The command line

The fields of `Cli` that the modelled part of `run` reads, and what it parses some of them into.
-/

namespace Passhrs

/-- `--shell`. -/
inductive Shell where
  | sh
  | cmd
deriving DecidableEq

structure Cli where
  identityFile : List String
  password : Option String
  passwordFile : Option String
  controlPath : Option String
  proxyJump : Option String
  cipherSpec : List String
  macSpec : List String
  noCommand : Bool
  forceTty : Bool
  disablePty : Bool
  forwardAgent : Bool
  noForwardAgent : Bool
  acceptAllHostKeys : Bool
  quiet : Bool
  command : List String
  execEnv : List String
  shell : Shell
  push : List String
  pull : List String
  rsync : List String
  rsyncOpt : List String
  stdioForward : Option String
  localForward : List String
  remoteForward : List String
  dynamicForward : List String
  httpProxyConnect : List String
deriving DecidableEq

/-- A command line with nothing but a command. -/
def Cli.ofCommand (command : List String) : Cli where
  identityFile := []
  password := none
  passwordFile := none
  controlPath := none
  proxyJump := none
  cipherSpec := []
  macSpec := []
  noCommand := false
  forceTty := false
  disablePty := false
  forwardAgent := false
  noForwardAgent := false
  acceptAllHostKeys := false
  quiet := false
  command := command
  execEnv := []
  shell := .sh
  push := []
  pull := []
  rsync := []
  rsyncOpt := []
  stdioForward := none
  localForward := []
  remoteForward := []
  dynamicForward := []
  httpProxyConnect := []

/-- `has_no_fresh_auth`. -/
def hasNoFreshAuth (cli : Cli) : Bool :=
  cli.identityFile.isEmpty && cli.password.isNone && cli.passwordFile.isNone

/-- `types::ForwardSpec`. -/
structure ForwardSpec where
  bindAddr : String
  bindPort : UInt16
  targetHost : String
  targetPort : UInt16
deriving DecidableEq

/-- `types::DynamicForwardSpec`. -/
structure DynamicForwardSpec where
  bindAddr : String
  bindPort : UInt16
deriving DecidableEq

/-- `types::ProxyJumpSpec`. -/
structure ProxyJumpSpec where
  user : Option String
  host : String
  port : UInt16
deriving DecidableEq

end Passhrs
