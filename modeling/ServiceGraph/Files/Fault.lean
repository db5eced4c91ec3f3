/-!
# File faults

* `FileFault`: why an operation on files fails;
* `FileFault.message`: the wording of the operating system.
-/

namespace ServiceGraph

inductive FileFault where
  | notFound
  | alreadyExists
  | notADirectory
  | isADirectory
  /-- the content is no text -/
  | notText
  /-- a directory that is in use cannot be replaced -/
  | busy
  /-- an empty path leads nowhere -/
  | emptyPath
deriving DecidableEq, Repr

def FileFault.message : FileFault → String
  | notFound => "No such file or directory (os error 2)"
  | alreadyExists => "File exists (os error 17)"
  | notADirectory => "Not a directory (os error 20)"
  | isADirectory => "Is a directory (os error 21)"
  | notText => "stream did not contain valid UTF-8"
  | busy => "Device or resource busy (os error 16)"
  | emptyPath => "cannot make an empty path absolute"

end ServiceGraph
