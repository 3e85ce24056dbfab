import ReadGuard.Text.Lines
import ReadGuard.Text.Quoted

namespace ReadGuard

/-- What the system says when it fails, with the number of the failure. -/
structure FileFault where
  code : Nat
  message : String
deriving DecidableEq, Repr

namespace FileFault

def ofPath (code : Nat) (reason path : String) : FileFault :=
  ⟨code, "[Errno " ++ toString code ++ "] " ++ reason ++ ": " ++ Text.quote path⟩

def missing : String → FileFault := ofPath 2 "No such file or directory"

def present : String → FileFault := ofPath 17 "File exists"

def notDirectory : String → FileFault := ofPath 20 "Not a directory"

def isDirectory : String → FileFault := ofPath 21 "Is a directory"

def tooLong : String → FileFault := ofPath 36 "File name too long"

def isMissing (f : FileFault) : Bool := f.code = 2

end FileFault

structure Files where
  isFile : String → Bool
  read : String → Except FileFault ByteArray

inductive Breakdown
  /-- A path has a null character. -/
  | nullInPath
  /-- A file is not UTF-8. -/
  | undecodable
deriving DecidableEq, Repr

inductive ReadFailure
  | fault (cause : FileFault)
  | breakdown (cause : Breakdown)
deriving DecidableEq, Repr

def hasNull (path : String) : Bool := path.toList.contains '\x00'

def Files.text (files : Files) (path : String) : Except ReadFailure String :=
  if hasNull path then .error (.breakdown .nullInPath)
  else
    match files.read path with
    | .error cause => .error (.fault cause)
    | .ok bytes =>
      match Text.decode? bytes with
      | none => .error (.breakdown .undecodable)
      | some text => .ok text

end ReadGuard
