import CodeSift.Analysis
import CodeSift.PortableExecutable.Layout

/-!
# Analysing executable files

An executable brings its own layout.  `Analysis.ofExecutable` analyses one that is at hand,
`Analysis.ofExecutables` several, each for itself; `Analysis.ofContents` takes what was found at a
path, and its errors name the path and the stage that failed.
-/

namespace CodeSift

/-- Why there is no analysis of the file at a path. -/
inductive FileError where
  | unreadable
  | unparsed (cause : ImageError)
  | unanalysed (cause : ImageError)
deriving DecidableEq, Repr, Inhabited

def FileError.message (path : String) : FileError → String
  | .unreadable => "Failed to read " ++ path
  | .unparsed _ => "Failed to parse " ++ path
  | .unanalysed _ => "Failed to analyze " ++ path

namespace Analysis

def ofExecutable (file : Array UInt8) (settings : Settings) :
    Except ImageError (Option Analysis) := do
  ofFile file (← PortableExecutable.layout file) settings fun _ => false

/-- The analyses of executables, in their order. -/
def ofExecutables (files : List (Array UInt8)) (settings : Settings) :
    List (Except ImageError (Option Analysis)) :=
  files.map fun file => ofExecutable file settings

/-- The analysis of the contents of a file, if it can be read. -/
def ofContents (contents : Option (Array UInt8)) (settings : Settings) :
    Except FileError (Option Analysis) := do
  let some file := contents | throw .unreadable
  let layout ← (PortableExecutable.layout file).mapError FileError.unparsed
  (ofFile file layout settings fun _ => false).mapError FileError.unanalysed

end Analysis

end CodeSift
