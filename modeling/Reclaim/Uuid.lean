import Reclaim.Text.Digit
import Reclaim.Text.Split

/-!
# Uuids

A uuid is a row of 32 hexadecimal digits.  It is read from the plain form, from
the hyphenated form, and from the hyphenated form in braces or behind
`urn:uuid:`; it is always written hyphenated and in lower case.  The order of
uuids is that of their digits, which is the order of their texts.

Main result: `parse?_text` says that the written form is read back.
-/

namespace Reclaim

/-- A row of 32 hexadecimal digits. -/
structure Uuid where
  digits : List (Fin 16)
  length_eq : digits.length = 32
  deriving DecidableEq

namespace Uuid

instance : Ord Uuid := ⟨fun a b => compare a.digits b.digits⟩

/-- The value of a hexadecimal digit in either case. -/
def digit? (c : Char) : Option (Fin 16) :=
  match Text.hexValue? c with
  | some n => if h : n < 16 then some ⟨n, h⟩ else none
  | none => none

/-- The uuid with the given digits. -/
def ofDigits? (s : List Char) : Option Uuid :=
  match s.mapM digit? with
  | some ds => if h : ds.length = 32 then some ⟨ds, h⟩ else none
  | none => none

/-- Reads the form with five groups of 8, 4, 4, 4 and 12 digits. -/
def parseHyphenated? (s : List Char) : Option Uuid :=
  match Text.pieces '-' s with
  | [a, b, c, d, e] =>
      if [a, b, c, d, e].map List.length = [8, 4, 4, 4, 12] then
        ofDigits? (a ++ b ++ c ++ d ++ e)
      else
        none
  | _ => none

/-- What stands before a uuid in its form as a resource name. -/
def resourceName : List Char :=
  "urn:uuid:".toList

/-- Reads the hyphenated form in braces or as a resource name. -/
def parseWrapped? (s : List Char) : Option Uuid :=
  if s.head? = some '\x7b' ∧ s.getLast? = some '\x7d' ∧ s.length = 38 then
    parseHyphenated? (s.drop 1).dropLast
  else if (s.take 9).map Char.toLower = resourceName then
    parseHyphenated? (s.drop 9)
  else
    none

/-- Reads any of the four forms. -/
def parse? (s : String) : Option Uuid :=
  if s.toList.length = 32 then ofDigits? s.toList
  else
    match parseHyphenated? s.toList with
    | some u => some u
    | none => parseWrapped? s.toList

/-- The digits as characters. -/
def characters (u : Uuid) : List Char :=
  u.digits.map fun d : Fin 16 => Text.hexDigit d.val

/-- The hyphenated form in lower case. -/
def textChars (u : Uuid) : List Char :=
  let cs := u.characters
  cs.take 8 ++ '-' :: (cs.drop 8).take 4 ++ '-' :: (cs.drop 12).take 4 ++
    '-' :: (cs.drop 16).take 4 ++ '-' :: cs.drop 20

/-- The hyphenated form in lower case. -/
def text (u : Uuid) : String :=
  String.ofList u.textChars

instance : ToString Uuid := ⟨text⟩

theorem digit?_hexDigit (d : Fin 16) :
    digit? (Text.hexDigit d) = some d := by
  simp [digit?, Text.hexValue?_hexDigit d.isLt]

@[simp] theorem length_characters (u : Uuid) :
    u.characters.length = 32 := by
  simp [characters, u.length_eq]

theorem mapM_digit?_characters (u : Uuid) :
    u.characters.mapM digit? = some u.digits := by
  have all : ∀ ds : List (Fin 16),
      (ds.map fun d : Fin 16 => Text.hexDigit d).mapM digit? = some ds := by
    intro ds
    induction ds with
    | nil => rfl
    | cons d r ih =>
        simp only [List.map_cons, List.mapM_cons, digit?_hexDigit, ih]
        rfl
  exact all u.digits

theorem ofDigits?_characters (u : Uuid) :
    ofDigits? u.characters = some u := by
  simp [ofDigits?, mapM_digit?_characters, u.length_eq]

theorem hyphen_not_mem_characters (u : Uuid) :
    '-' ∉ u.characters := by
  simp only [characters, List.mem_map, not_exists, not_and]
  intro d _
  have all : ∀ d : Fin 16, Text.hexDigit d ≠ '-' := by decide
  exact all d

/-- The five groups of the hyphenated form. -/
def groups (u : Uuid) : List (List Char) :=
  [u.characters.take 8, (u.characters.drop 8).take 4, (u.characters.drop 12).take 4,
    (u.characters.drop 16).take 4, u.characters.drop 20]

theorem length_groups (u : Uuid) : u.groups.map List.length = [8, 4, 4, 4, 12] := by
  simp [groups]

theorem flatten_groups (u : Uuid) : u.groups.flatten = u.characters := by
  have e₁ := List.take_append_drop 4 (u.characters.drop 16)
  have e₂ := List.take_append_drop 4 (u.characters.drop 12)
  have e₃ := List.take_append_drop 4 (u.characters.drop 8)
  have e₄ := List.take_append_drop 8 u.characters
  simp only [List.drop_drop] at e₁ e₂ e₃
  simp only [groups, List.flatten_cons, List.flatten_nil, List.append_nil]
  rw [e₁, e₂, e₃, e₄]

/-- The groups of the hyphenated form are the pieces between its hyphens. -/
theorem pieces_textChars (u : Uuid) : Text.pieces '-' u.textChars = u.groups := by
  have no : ∀ s : List Char, (∀ c ∈ s, c ∈ u.characters) → '-' ∉ s :=
    fun s h hm => hyphen_not_mem_characters u (h _ hm)
  simp only [textChars, List.append_assoc, List.cons_append]
  rw [Text.pieces_append _ (no _ fun _ => List.mem_of_mem_take),
    Text.pieces_append _ (no _ fun _ h =>
      List.mem_of_mem_drop (List.mem_of_mem_take h)),
    Text.pieces_append _ (no _ fun _ h =>
      List.mem_of_mem_drop (List.mem_of_mem_take h)),
    Text.pieces_append _ (no _ fun _ h =>
      List.mem_of_mem_drop (List.mem_of_mem_take h)),
    Text.pieces_of_not_mem (no _ fun _ => List.mem_of_mem_drop)]
  rfl

/-- What is read are five groups of the right lengths, which write the digits together. -/
theorem parseHyphenated?_eq (s : List Char) :
    parseHyphenated? s =
      if (Text.pieces '-' s).map List.length = [8, 4, 4, 4, 12] then
        ofDigits? (Text.pieces '-' s).flatten
      else none := by
  unfold parseHyphenated?
  split
  · next heq => simp only [heq, List.flatten_cons, List.flatten_nil, List.append_nil,
      List.append_assoc]
  · next hne =>
      rw [if_neg]
      intro hlengths
      simp only [List.map_eq_cons_iff, List.map_eq_nil_iff] at hlengths
      obtain ⟨a, _, hpieces, -, b, _, rfl, -, c, _, rfl, -, d, _, rfl, -, e, _, rfl, -, rfl⟩ :=
        hlengths
      exact hne a b c d e hpieces

theorem parseHyphenated?_textChars (u : Uuid) :
    parseHyphenated? u.textChars = some u := by
  rw [parseHyphenated?_eq, pieces_textChars, if_pos u.length_groups, flatten_groups,
    ofDigits?_characters]

/-- The written form is read back. -/
theorem parse?_text (u : Uuid) :
    parse? u.text = some u := by
  have hl : u.textChars.length = 36 := by
    have := length_characters u
    simp only [textChars, List.length_append, List.length_cons,
      List.length_take, List.length_drop]
    omega
  simp [parse?, text, hl, parseHyphenated?_textChars]

end Uuid
end Reclaim
