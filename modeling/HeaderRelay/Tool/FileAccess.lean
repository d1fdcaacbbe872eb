/-!
# Access to files

The tool's commands are written against whatever gives access to files, so that they run on a disk
and can be followed in memory.

* `FileError` — why a file cannot be had, with the sentence shown for it;
* `FileAccess` — the three questions the tool asks of a file system;
* `textOf` — the text that bytes spell.
-/

namespace HeaderRelay
namespace Tool

inductive FileError where
  | notFound
  /-- The path leads through something that is no directory. -/
  | notADirectory
  | isADirectory
  /-- The file was to be text and is not. -/
  | notText
  /-- No path contains a zero byte. -/
  | zeroInPath
  /-- The path, or a name in it, has more bytes than any may have. -/
  | nameTooLong
  /-- Anything else, in the words of the file system. -/
  | other (text : String)
  deriving DecidableEq, Repr

def FileError.message : FileError → String
  | notFound => "No such file or directory (os error 2)"
  | notADirectory => "Not a directory (os error 20)"
  | isADirectory => "Is a directory (os error 21)"
  | notText => "stream did not contain valid UTF-8"
  | zeroInPath => "file name contained an unexpected NUL byte"
  | nameTooLong => "File name too long (os error 36)"
  | other text => text

/-- A file system, with effects in `m`. -/
structure FileAccess (m : Type → Type) where
  /-- Whether anything, a file or a directory, is there. -/
  has : (path : String) → m Bool
  read : (path : String) → m (Except FileError (List UInt8))
  /-- Replaces the content of a file or makes the file. -/
  write : (path : String) → (content : List UInt8) → m (Except FileError Unit)

/-- The text that `bytes` spell in UTF-8. -/
def textOf (bytes : List UInt8) : Except FileError String :=
  match String.fromUTF8? (ByteArray.mk bytes.toArray) with
  | some text => .ok text
  | none => .error .notText

end Tool
end HeaderRelay
