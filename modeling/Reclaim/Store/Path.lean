import Reclaim.Text.Split

/-!
# Paths of a store

The entries of a store lie at paths, and the entries below a directory are
those whose paths go on behind its path and a slash.
-/

namespace Reclaim
namespace Store

/-- The path of the directory that a path lies in. -/
def parent (path : String) : String :=
  match Text.cutLast? '/' (Text.trimEnd '/' path.toList) with
  | none => ""
  | some ([], _) => "/"
  | some (before, _) => String.ofList before

/-- A path without the slashes at its end. -/
def trimmed (path : String) : String :=
  String.ofList (Text.trimEnd '/' path.toList)

/-- What the paths of all entries below a directory start with. -/
def childrenStart (path : String) : String :=
  trimmed path ++ "/"

/-- The name of an entry of a directory whose path has no slash at its end. -/
def nameIn (directory path : String) : String :=
  String.ofList
    (Text.trimStart '/' (path.toList.drop directory.toList.length))

/-- The second segment of the path is that of the uploads. -/
def isUploadPath (path : String) : Bool :=
  (Text.pieces '/' (Text.trimStart '/' path.toList))[1]? =
    some "uploads".toList

end Store
end Reclaim
