import HeaderRelay.Tool.Program

/-!
# The program on a real machine

Everything is decided in `HeaderRelay.Tool.run`; here are the disk, the arguments and the two
output streams.
-/

namespace HeaderRelay
namespace Tool

/-- The causes that the tool tells apart; others keep the words of the file system. -/
def fileErrorOf : IO.Error → FileError
  | .noFileOrDirectory .. => .notFound
  | .inappropriateType _ 21 _ => .isADirectory
  | .inappropriateType _ 20 _ => .notADirectory
  | .invalidArgument _ 36 _ => .nameTooLong
  | e => .other (toString e)

def attempt {α : Type} (action : IO α) : IO (Except FileError α) := do
  match ← action.toBaseIO with
  | .ok a => return .ok a
  | .error e => return .error (fileErrorOf e)

/-- The disk. -/
def disk : FileAccess IO where
  has path := do
    match ← (IO.FS.Handle.mk path .read).toBaseIO with
    | .ok _ => return true
    | .error (.noFileOrDirectory ..) => return false
    | .error (.inappropriateType _ 20 _) => return false
    | .error (.invalidArgument _ 36 _) => return false
    | .error _ => return true
  read path := attempt do
    return (← IO.FS.readBinFile path).toList
  write path content := attempt do
    IO.FS.writeBinFile path (ByteArray.mk content.toArray)

end Tool
end HeaderRelay

open HeaderRelay in
/-- Prints what a run leaves behind and returns its exit code. -/
def main (arguments : List String) : IO UInt32 := do
  let home ← IO.getEnv "HOME"
  let outcome ← Tool.run Tool.disk home arguments
  for event in outcome.events do
    if event.level.heardAt outcome.level then
      IO.eprintln event.line
  for line in outcome.output do
    IO.println line
  match outcome.failure with
  | some failure => IO.eprintln failure.message
  | none => pure ()
  return UInt32.ofNat outcome.exitCode
