import Reclaim.Text.Utf8
import Reclaim.Tool.Basic

/-!
# Output files

Each output is written from the start of its file, through a buffer of 8192
bytes.  Two outputs may name the same file, where the later one overwrites as
much as it is long.  That the outputs are written one after the other, as they
are here, holds for such outputs only while each of them fits its buffer: longer
ones are written in pieces, whenever a buffer is full.  Outputs that have their
files for themselves may be of any length.
-/

namespace Reclaim
namespace Routing

/-- What a file holds after something has been written from its start. -/
def overwrite (old new : List UInt8) : List UInt8 :=
  new ++ old.drop new.length

/-- Writes to a file that may exist already. -/
def writeFile (path : String) (content : List UInt8) :
    List (String × List UInt8) → List (String × List UInt8)
  | [] => [(path, content)]
  | (p, old) :: r =>
      if p = path then (p, overwrite old content) :: r
      else (p, old) :: writeFile path content r

/--
The files after all outputs have been written, one after the other; outputs that
share a file have to fit their buffers.
-/
def filesOf (paths : List String) (outputs : List (List String)) :
    List (String × List UInt8) :=
  (paths.zip outputs).foldl
    (fun files (path, lines) =>
      writeFile path (Text.Utf8.encode (Tool.outputText lines).toList) files)
    []

end Routing
end Reclaim
