import Reclaim.Digest.Md5
import Reclaim.Text.Split

/-!
# Keys of lines

A line goes to an output according to its key: the whole line, or one of the
fields between delimiters.  An empty delimiter stands before and behind every
character.
-/

namespace Reclaim
namespace Routing

/-- The pieces between the delimiters, which are longer than nothing. -/
def piecesBetween (d : Char) (ds : List Char) : List Char → List (List Char)
  | [] => [[]]
  | c :: r =>
      if (d :: ds).isPrefixOf (c :: r) then
        [] :: piecesBetween d ds (r.drop ds.length)
      else
        match piecesBetween d ds r with
        | [] => [[c]]
        | p :: ps => (c :: p) :: ps
termination_by s => s.length
decreasing_by
  all_goals
    simp only [List.length_cons, List.length_drop]
    omega

/-- The fields of a line between delimiters. -/
def delimited (delimiter line : String) : List String :=
  match delimiter.toList with
  | [] =>
      let characters := line.toList.map fun c => [c]
      ([] :: characters ++ [[]]).map String.ofList
  | d :: ds => (piecesBetween d ds line.toList).map String.ofList

/-- Which part of a line is its key. -/
inductive KeyPart
  | wholeLine
  /-- A field counted from zero; a line without it has the empty key. -/
  | field (index : Nat) (delimiter : String)
  deriving DecidableEq, Repr

/-- The key of a line. -/
def KeyPart.extract : KeyPart → String → String
  | wholeLine, line => line
  | field index delimiter, line => (delimited delimiter line).getD index ""

/-- Spreads keys by the remainder of a digest. -/
def selectByDigest (digest : String → Nat) (key : String) (outputs : Nat) :
    Nat :=
  digest key % outputs

end Routing
end Reclaim
