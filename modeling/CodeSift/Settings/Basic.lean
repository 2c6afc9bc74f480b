import CodeSift.Instruction.Basic

/-!
# Settings of an analysis

The settings say how much an analysis may do: the processor mode it decodes for, which traces of
code it follows, how many attempts and failures it allows, and which searches it runs over the
bytes that are left.  The thresholds of the searches themselves are not settings; they stand with
the searches.
-/

namespace CodeSift

structure Settings where
  cpuMode : CpuMode := .bits32
  followImmediatePointers : Bool := true
  followJumpTables : Bool := true
  /-- The failed attempts after which discovery ends. -/
  maxRecoveries : UInt64 := 4096
  /-- How many erased spans are remembered. -/
  eraseHistoryLimit : UInt64 := 64
  /-- The attempts after which discovery ends; zero for no limit. -/
  maxAttempts : UInt64 := 0
  detectStrings : Bool := true
  detectAddressTables : Bool := true
  validateCode : Bool := true
deriving DecidableEq, Repr, Inhabited

end CodeSift
