import Reclaim.Json.Basic
import Reclaim.Json.Fault
import Reclaim.Json.Number
import Reclaim.Json.Token

/-!
# Reading JSON

Values are read from the tokens of a text.  The nesting of lists and objects is
bounded, numbers must fit, and an escaped code unit of a surrogate pair must
have its partner.  A value that is only skipped has to follow the grammar and
nothing else.

The readers of lists and objects take the reader of their items as an argument,
so that the same ones serve for values and for records.
-/

namespace Reclaim
namespace Json

/-- How deep lists and objects may nest. -/
def maxDepth : Nat := 127

/-- What has been read from the front of the tokens, and the tokens after it. -/
abbrev Taken (α : Type) := α × List Token

/-- The characters of a string; none if half of a surrogate pair stands alone. -/
def decodeParts : List StringPart → Option (List Char)
  | [] => some []
  | .plain c :: r => (decodeParts r).map (c :: ·)
  | .unit n :: .unit m :: r =>
      if 0xD800 ≤ n ∧ n < 0xDC00 then
        if 0xDC00 ≤ m ∧ m < 0xE000 then
          (decodeParts r).map
            (Char.ofNat (0x10000 + (n - 0xD800) * 0x400 + (m - 0xDC00)) :: ·)
        else
          none
      else if 0xDC00 ≤ n ∧ n < 0xE000 then none
      else (decodeParts (.unit m :: r)).map (Char.ofNat n :: ·)
  | .unit n :: r =>
      if 0xD800 ≤ n ∧ n < 0xE000 then none
      else (decodeParts r).map (Char.ofNat n :: ·)

/-- The text of a string token. -/
def decodeString (parts : List StringPart) : Except Fault String :=
  match decodeParts parts with
  | some s => .ok (String.ofList s)
  | none => .error .malformed

/-- The value of a number token. -/
def decodeNumber (t : NumberText) : Except Fault Number :=
  match Number.ofText? t with
  | some n => .ok n
  | none => .error .malformed

section Combinators

variable {α δ : Type}

/-- The items after the first one, up to the closing bracket. -/
def furtherItems (item : List Token → Except Fault (Taken α)) :
    Nat → List Token → Except Fault (Taken (List α))
  | _, .closeArray :: r => .ok ([], r)
  | fuel + 1, .comma :: r => do
      let (x, r) ← item r
      let (xs, r) ← furtherItems item fuel r
      .ok (x :: xs, r)
  | _, _ => .error .malformed

/-- The items of a list behind its opening bracket. -/
def items (item : List Token → Except Fault (Taken α)) :
    List Token → Except Fault (Taken (List α))
  | .closeArray :: r => .ok ([], r)
  | ts => do
      let (x, r) ← item ts
      let (xs, r) ← furtherItems item r.length r
      .ok (x :: xs, r)

/-- One member of an object: `member` gets the name and reads on from the colon. -/
def oneMember (member : δ → String → List Token → Except Fault (Taken δ)) (state : δ) :
    List Token → Except Fault (Taken δ)
  | .string name :: r => do
      let name ← decodeString name
      member state name r
  | _ => .error .malformed

/-- The members after the first one, up to the closing brace. -/
def furtherMembers (member : δ → String → List Token → Except Fault (Taken δ)) :
    Nat → δ → List Token → Except Fault (Taken δ)
  | _, state, .closeObject :: r => .ok (state, r)
  | fuel + 1, state, .comma :: r => do
      let (state, r) ← oneMember member state r
      furtherMembers member fuel state r
  | _, _, _ => .error .malformed

/-- The members of an object behind its opening brace. -/
def members (member : δ → String → List Token → Except Fault (Taken δ)) (state : δ) :
    List Token → Except Fault (Taken δ)
  | .closeObject :: r => .ok (state, r)
  | ts => do
      let (state, r) ← oneMember member state ts
      furtherMembers member r.length state r

/-- What stands behind the colon of a member. -/
def behindColon (value : List Token → Except Fault (Taken α)) :
    List Token → Except Fault (Taken α)
  | .colon :: r => value r
  | _ => .error .malformed

end Combinators

/-- Reads one value with at most `depth` levels of nesting. -/
def readValue : Nat → List Token → Except Fault (Taken Value)
  | _, .null :: r => .ok (.null, r)
  | _, .bool b :: r => .ok (.bool b, r)
  | _, .number t :: r => do
      let n ← decodeNumber t
      .ok (.number n, r)
  | _, .string parts :: r => do
      let s ← decodeString parts
      .ok (.string s, r)
  | depth + 1, .openArray :: r => do
      let (xs, r) ← items (readValue depth) r
      .ok (.array xs, r)
  | depth + 1, .openObject :: r => do
      let (ms, r) ← members
        (fun ms name ts => do
          let (v, r) ← behindColon (readValue depth) ts
          .ok (setMember name v ms, r))
        [] r
      .ok (.object ms, r)
  | _, _ => .error .malformed

/-- Passes over one value; `depth` bounds the nesting. -/
def skipNested : Nat → List Token → Except Fault (Taken Unit)
  | _, .null :: r => .ok ((), r)
  | _, .bool _ :: r => .ok ((), r)
  | _, .number _ :: r => .ok ((), r)
  | _, .string _ :: r => .ok ((), r)
  | depth + 1, .openArray :: r => do
      let (_, r) ← items (skipNested depth) r
      .ok ((), r)
  | depth + 1, .openObject :: r => skipMembers (skipNested depth) r
  | _, _ => .error .malformed
where
  /-- Passes over the members of an object, whose names are not decoded. -/
  skipMembers (value : List Token → Except Fault (Taken Unit)) :
      List Token → Except Fault (Taken Unit)
    | .closeObject :: r => .ok ((), r)
    | .string _ :: r => do
        let (_, r) ← behindColon value r
        furtherSkipped value r.length r
    | _ => .error .malformed
  /-- Passes over the members after the first one. -/
  furtherSkipped (value : List Token → Except Fault (Taken Unit)) :
      Nat → List Token → Except Fault (Taken Unit)
    | _, .closeObject :: r => .ok ((), r)
    | fuel + 1, .comma :: .string _ :: r => do
        let (_, r) ← behindColon value r
        furtherSkipped value fuel r
    | _, _ => .error .malformed

/-- Passes over one value of any nesting. -/
def skipValue (ts : List Token) : Except Fault (Taken Unit) :=
  skipNested ts.length ts

/-- Reads a whole text: nothing may follow what `read` takes. -/
def readText {α : Type} (read : List Token → Except Fault (Taken α)) (s : String) :
    Except Fault α := do
  let (x, r) ← read (scan s.toList)
  if r.isEmpty then .ok x else .error .malformed

/-- The value that a text writes. -/
def parse (s : String) : Except Fault Value :=
  readText (readValue maxDepth) s

end Json
end Reclaim
