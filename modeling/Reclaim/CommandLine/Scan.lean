import Reclaim.CommandLine.Parameter

/-!
# Scanning a command line

The words of a command line are scanned up to the name of a command or to the
end.  A long parameter stands behind two hyphens, with its value behind an
equals sign or as the next word; a letter stands behind one hyphen.  A word
that starts with a hyphen is never a value, and two hyphens alone say that no
parameter follows.

A value is read when the next parameter begins or the scan ends, so that a word
which nothing explains is reported before a value that cannot be read.
-/

namespace Reclaim
namespace CommandLine

/-- What a word is by its hyphens. -/
inductive Word
  | long (name : String) (value : Option String)
  | letter (c : Char)
  | plain
  deriving DecidableEq, Repr

/-- The kind of a word. -/
def Word.ofText (s : String) : Word :=
  match s.toList with
  | '-' :: '-' :: r =>
      match Text.cut? '=' r with
      | some (name, value) =>
          .long (String.ofList name) (some (String.ofList value))
      | none => .long (String.ofList r) none
  | '-' :: c :: _ => .letter c
  | _ => .plain

/-- The draft, and the parameter whose value has not been read. -/
structure Scan where
  draft : Draft := {}
  pending : Option (Parameter × Option String) := none

namespace Scan

/-- The last parameter lacks its value. -/
def awaitsValue (s : Scan) : Bool :=
  match s.pending with
  | some (_, none) => true
  | _ => false

/-- Reads the value of the last parameter. -/
def settle (s : Scan) : Except UsageFault Draft :=
  match s.pending with
  | none => .ok s.draft
  | some (_, none) => .error .missingValue
  | some (p, some value) => p.apply value s.draft

/-- Begins a parameter that stands alone. -/
def begin (s : Scan) (p : Parameter) : Except UsageFault Scan := do
  let d ← s.settle
  if p.takesValue then
    .ok ⟨d, some (p, none)⟩
  else
    let d ← p.apply "" d
    .ok ⟨d, none⟩

/-- Reads a parameter with its value. -/
def attach (s : Scan) (p : Parameter) (value : String) :
    Except UsageFault Scan :=
  if p.takesValue then do
    let d ← s.settle
    let d ← p.apply value d
    .ok ⟨d, none⟩
  else
    .error .unwantedValue

/-- Takes a long parameter. -/
def takeLong (parameters : List Parameter) (s : Scan) (name : String)
    (value : Option String) : Except UsageFault Scan :=
  match parameters.find? fun p => p.name = name, value with
  | none, _ => .error .unknownArgument
  | some p, none => s.begin p
  | some p, some value => s.attach p value

/-- Takes the letter of a parameter. -/
def takeLetter (parameters : List Parameter) (s : Scan) (c : Char) :
    Except UsageFault Scan :=
  match parameters.find? fun p => p.letter = some c with
  | none => .error .unknownArgument
  | some p => s.begin p

/-- The fault of a word that is neither a parameter nor a value. -/
def unexplained (commands : List String) : UsageFault :=
  if commands.isEmpty then .unknownArgument else .unknownCommand

/-- Takes a word without hyphens as the value that is awaited. -/
def takePlain (commands : List String) (s : Scan) (word : String) :
    Except UsageFault Scan :=
  match s.pending with
  | some (p, none) => .ok { s with pending := some (p, some word) }
  | _ => .error (unexplained commands)

/-- Takes a word. -/
def take (parameters : List Parameter) (commands : List String) (s : Scan)
    (word : String) : Except UsageFault Scan :=
  match Word.ofText word with
  | .long name value => s.takeLong parameters name value
  | .letter c => s.takeLetter parameters c
  | .plain => s.takePlain commands word

/-- Nothing may follow two hyphens; the name of a command is out of place. -/
def afterHyphens (commands : List String) (s : Scan) :
    List String → Except UsageFault Scan
  | [] => .ok s
  | word :: _ =>
      if commands.contains word then .error .unknownArgument
      else .error (unexplained commands)

/-- Scans up to a command, which is given with the words behind it, or to the end. -/
def run (parameters : List Parameter) (commands : List String) (s : Scan) :
    List String → Except UsageFault (Scan × Option (String × List String))
  | [] => .ok (s, none)
  | word :: rest =>
      if !s.awaitsValue && commands.contains word then
        .ok (s, some (word, rest))
      else if word = "--" then
        (s.afterHyphens commands rest).map fun s => (s, none)
      else do
        let s ← s.take parameters commands word
        s.run parameters commands rest

end Scan
end CommandLine
end Reclaim
