import Reclaim.Json.Reader

/-!
# Records in JSON

A `Codec` reads one type of data in two ways: from a value and straight from
text.  Records are built from codecs of their fields.  A record is an object,
whose unknown members are ignored, or a list with the fields in their order,
where fields at the end may be left out if they have a default.

The two ways differ in what they report first.  A value is visited in the order
of its member names; a text is visited as it is written, so that a repeated
field is a fault of its own and a fault in the data is found before a fault of
the grammar behind it.  Members of a text that no field wants are skipped.
-/

namespace Reclaim
namespace Json

/-- A type of data that is read from a value and from text. -/
structure Codec (α : Type) where
  /-- Reads a value. -/
  ofValue : Value → Except Fault α
  /-- Reads from the front of the tokens of a text, with a bound on the nesting. -/
  ofTokens : Nat → List Token → Except Fault (Taken α)

/-- The fault of a token that starts no value of the wanted type. -/
def mismatch : List Token → Fault
  | .number t :: _ =>
      match decodeNumber t with
      | .ok _ => .invalidType
      | .error e => e
  | .string parts :: _ =>
      match decodeString parts with
      | .ok _ => .invalidType
      | .error e => e
  | .null :: _ => .invalidType
  | .bool _ :: _ => .invalidType
  | .openArray :: _ => .invalidType
  | .openObject :: _ => .invalidType
  | _ => .malformed

namespace Codec

/-- Reads the same data as something else. -/
def map {α β : Type} (f : α → β) (c : Codec α) : Codec β where
  ofValue v := (c.ofValue v).map f
  ofTokens depth ts := (c.ofTokens depth ts).map fun (x, r) => (f x, r)

/-- A string. -/
def text : Codec String where
  ofValue
    | .string s => .ok s
    | _ => .error .invalidType
  ofTokens
    | _, .string parts :: r => do
        let s ← decodeString parts
        .ok (s, r)
    | _, ts => .error (mismatch ts)

/-- A signed integer of 64 bits. -/
def signedOfNumber : Number → Except Fault Int
  | .integer n => if n ≤ Text.maxSigned64 then .ok n else .error .invalidValue
  | .float _ => .error .invalidType

/-- A signed integer of 64 bits. -/
def signed : Codec Int where
  ofValue
    | .number n => signedOfNumber n
    | _ => .error .invalidType
  ofTokens
    | _, .number t :: r => do
        let n ← decodeNumber t
        let i ← signedOfNumber n
        .ok (i, r)
    | _, ts => .error (mismatch ts)

/-- Any value. -/
def value : Codec Value where
  ofValue v := .ok v
  ofTokens := readValue

/-- A null, or data of a type. -/
def optional {α : Type} (c : Codec α) : Codec (Option α) where
  ofValue
    | .null => .ok none
    | v => (c.ofValue v).map some
  ofTokens
    | _, .null :: r => .ok (none, r)
    | depth, ts => (c.ofTokens depth ts).map fun (x, r) => (some x, r)

/-- A list of data of a type. -/
def list {α : Type} (c : Codec α) : Codec (List α) where
  ofValue
    | .array xs => xs.mapM c.ofValue
    | _ => .error .invalidType
  ofTokens
    | depth + 1, .openArray :: r => items (c.ofTokens depth) r
    | 0, .openArray :: _ => .error .malformed
    | _, ts => .error (mismatch ts)

end Codec

/-- A field of a record: reading it gives a change of the draft of the record. -/
structure Field (δ : Type) where
  name : String
  codec : Codec (δ → δ)
  isSet : δ → Bool
  hasDefault : Bool

namespace Field

variable {δ : Type}

/-- Changes the draft by a member of an object; unknown members change nothing. -/
def visitMember (fields : List (Field δ)) (draft : δ)
    (member : String × Value) : Except Fault δ :=
  match fields.find? (·.name = member.1) with
  | some f => do
      let change ← f.codec.ofValue member.2
      .ok (change draft)
  | none => .ok draft

/-- Changes the draft by the items of a list, one for each field. -/
def visitItems (draft : δ) : List (Field δ) → List Value → Except Fault δ
  | [], [] => .ok draft
  | [], _ :: _ => .error .invalidLength
  | f :: fs, [] =>
      if f.hasDefault then visitItems draft fs [] else .error .invalidLength
  | f :: fs, v :: vs => do
      let change ← f.codec.ofValue v
      visitItems (change draft) fs vs

/-- Changes the draft by a member of an object in a text. -/
def readMember (fields : List (Field δ)) (depth : Nat) (draft : δ)
    (name : String) (ts : List Token) : Except Fault (Taken δ) :=
  match fields.find? (·.name = name) with
  | some f =>
      if f.isSet draft then .error (.duplicateField name)
      else do
        let (change, r) ← behindColon (f.codec.ofTokens depth) ts
        .ok (change draft, r)
  | none => do
      let (_, r) ← behindColon skipValue ts
      .ok (draft, r)

/-- The fields that a list in a text leaves out, up to its closing bracket. -/
def readMissing (draft : δ) (fields : List (Field δ)) (r : List Token) :
    Except Fault (Taken δ) :=
  if fields.all (·.hasDefault) then .ok (draft, r) else .error .invalidLength

/-- Changes the draft by the items after the first one of a list in a text. -/
def readFurtherItems (depth : Nat) (draft : δ) :
    List (Field δ) → List Token → Except Fault (Taken δ)
  | fs, .closeArray :: r => readMissing draft fs r
  | f :: fs, .comma :: r => do
      let (change, r) ← f.codec.ofTokens depth r
      readFurtherItems depth (change draft) fs r
  | _, _ => .error .malformed

/-- Changes the draft by the items of a list in a text, one for each field. -/
def readItems (depth : Nat) (draft : δ) :
    List (Field δ) → List Token → Except Fault (Taken δ)
  | fs, .closeArray :: r => readMissing draft fs r
  | f :: fs, ts => do
      let (change, r) ← f.codec.ofTokens depth ts
      readFurtherItems depth (change draft) fs r
  | [], _ => .error .malformed

end Field

namespace Codec

variable {δ ρ : Type}

/-- A record with the given fields, finished from its draft. -/
def record (fields : List (Field δ)) (empty : δ)
    (finish : δ → Except Fault ρ) : Codec ρ where
  ofValue
    | .object ms => do
        let draft ← ms.foldlM (Field.visitMember fields) empty
        finish draft
    | .array xs => do
        let draft ← Field.visitItems empty fields xs
        finish draft
    | _ => .error .invalidType
  ofTokens
    | depth + 1, .openObject :: r => do
        let (draft, r) ← members (Field.readMember fields depth) empty r
        (finish draft).map fun x => (x, r)
    | depth + 1, .openArray :: r => do
        let (draft, r) ← Field.readItems depth empty fields r
        (finish draft).map fun x => (x, r)
    | 0, .openObject :: _ => .error .malformed
    | 0, .openArray :: _ => .error .malformed
    | _, ts => .error (mismatch ts)

/-- Reads a whole text. -/
def ofText (c : Codec ρ) (s : String) : Except Fault ρ :=
  readText (c.ofTokens maxDepth) s

/-- What a record requires of one of its fields. -/
def required {α : Type} (name : String) : Option α → Except Fault α
  | some x => .ok x
  | none => .error (.missingField name)

end Codec
end Json
end Reclaim
