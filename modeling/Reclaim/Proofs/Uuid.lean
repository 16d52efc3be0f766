import Reclaim.Uuid

/-!
# Hyphenated uuids

A uuid is read from five groups of digits between hyphens exactly if the text is
the hyphenated text of the uuid in some mixture of cases.  Among the texts of
hexadecimal digits and hyphens that are as long as this form, no other form of a
uuid is found, so the general reader reads nothing else from them.

Main results: `parseHyphenated?_eq_some_iff` and `parse?_eq_some_iff_isTextOf`.
-/

namespace Reclaim
namespace Uuid

/-! ## Digits -/

/-- What holds of all numbers below 128 holds of the characters that have them. -/
theorem of_ascii {P : Char → Prop} (h : ∀ n < 128, P (Char.ofNat n)) {c : Char}
    (hc : c.toNat < 128) : P c := by
  have hcase := h c.toNat hc
  rwa [Char.ofNat_toNat] at hcase

/-- Characters beyond ASCII are not changed by lower case. -/
theorem toLower_of_not_ascii {c : Char} (h : 128 ≤ c.toNat) : c.toLower = c := by
  have hupper : ¬ (c.val ≥ 'A'.val ∧ c.val ≤ 'Z'.val) := by
    rintro ⟨-, hle⟩
    have hz : c.toNat ≤ 90 := hle
    omega
  exact dif_neg hupper

theorem hexValue?_of_not_ascii {c : Char} (h : 128 ≤ c.toNat) : Text.hexValue? c = none := by
  have above : ∀ d : Char, d.toNat < 128 → decide (c ≤ d) = false := by
    intro d hd
    refine decide_eq_false fun hle => ?_
    have hcd : c.toNat ≤ d.toNat := hle
    omega
  simp only [Text.hexValue?, Text.isDigit, above '9' (by decide), above 'f' (by decide),
    above 'F' (by decide), Bool.and_false, Bool.false_eq_true, if_false]

/-- A digit is read in either case. -/
theorem digit?_eq_some_iff {c : Char} {d : Fin 16} :
    digit? c = some d ↔ c.toLower = Text.hexDigit d := by
  by_cases hc : c.toNat < 128
  · exact of_ascii (P := fun c => ∀ d : Fin 16,
      digit? c = some d ↔ c.toLower = Text.hexDigit d) (by decide +kernel) hc d
  · have hlow : ∀ d : Fin 16, (Text.hexDigit d).toNat < 128 := by decide
    rw [digit?, hexValue?_of_not_ascii (Nat.le_of_not_lt hc),
      toLower_of_not_ascii (Nat.le_of_not_lt hc)]
    constructor
    · intro h
      cases h
    · intro heq
      exact absurd (hlow d) (by rwa [← heq])

/-- Hyphens are not written in another case. -/
theorem toLower_eq_hyphen_iff {c : Char} : c.toLower = '-' ↔ c = '-' := by
  by_cases hc : c.toNat < 128
  · exact of_ascii (P := fun c => c.toLower = '-' ↔ c = '-') (by decide +kernel) hc
  · rw [toLower_of_not_ascii (Nat.le_of_not_lt hc)]

theorem mapM_digit?_eq_some_iff {s : List Char} {ds : List (Fin 16)} :
    s.mapM digit? = some ds ↔
      s.map Char.toLower = ds.map fun d : Fin 16 => Text.hexDigit d := by
  induction s generalizing ds with
  | nil => cases ds <;> simp
  | cons c s ih =>
      rw [List.mapM_cons]
      simp only [Option.bind_eq_bind, Option.bind_eq_some_iff, digit?_eq_some_iff, ih]
      constructor
      · rintro ⟨d, hd, rest, hrest, hds⟩
        obtain rfl := Option.some.inj hds
        rw [List.map_cons, List.map_cons, hd, hrest]
      · intro h
        cases ds with
        | nil => cases h
        | cons d rest =>
            obtain ⟨hd, hrest⟩ := List.cons.inj h
            exact ⟨d, hd, rest, hrest, rfl⟩

theorem ofDigits?_eq_some_iff {s : List Char} {u : Uuid} :
    ofDigits? s = some u ↔ s.map Char.toLower = u.characters := by
  rw [characters, ← mapM_digit?_eq_some_iff, ofDigits?]
  constructor
  · intro h
    split at h
    · next ds hds =>
        split at h
        · obtain rfl := Option.some.inj h
          exact hds
        · cases h
    · cases h
  · intro h
    simp only [h, u.length_eq, dite_true]

/-! ## Groups -/

theorem pieces_map_toLower (s : List Char) :
    Text.pieces '-' (s.map Char.toLower) = (Text.pieces '-' s).map (List.map Char.toLower) := by
  induction s with
  | nil => rfl
  | cons c s ih =>
      rw [List.map_cons, Text.pieces, Text.pieces, ih]
      by_cases hc : c = '-'
      · rw [if_pos hc, if_pos (toLower_eq_hyphen_iff.2 hc)]
        rfl
      · rw [if_neg hc, if_neg fun hlow => hc (toLower_eq_hyphen_iff.1 hlow)]
        cases Text.pieces '-' s <;> rfl

/-- The hyphenated form is read in any mixture of cases, and no other text. -/
theorem parseHyphenated?_eq_some_iff {s : List Char} {u : Uuid} :
    parseHyphenated? s = some u ↔ s.map Char.toLower = u.textChars := by
  have hgroups : s.map Char.toLower = u.textChars ↔
      (Text.pieces '-' s).map (List.map Char.toLower) = u.groups := by
    rw [← pieces_map_toLower, ← u.pieces_textChars]
    refine ⟨congrArg _, fun h => ?_⟩
    rw [← Text.intercalate_pieces '-' (s.map Char.toLower), h, Text.intercalate_pieces]
  have hlength : ((Text.pieces '-' s).map (List.map Char.toLower)).map List.length =
      (Text.pieces '-' s).map List.length := by
    rw [List.map_map]
    exact List.map_congr_left fun _ _ => List.length_map _
  rw [hgroups, parseHyphenated?_eq, List.eq_iff_flatten_eq, hlength, u.length_groups,
    u.flatten_groups, ← List.map_flatten, Option.ite_none_right_eq_some, ofDigits?_eq_some_iff,
    and_comm]

/-! ## All forms -/

/-- A character of the hyphenated form. -/
def IsFormChar (c : Char) : Prop :=
  (Text.hexValue? c).isSome ∨ c = '-'

instance : DecidablePred IsFormChar :=
  fun _ => inferInstanceAs (Decidable (_ ∨ _))

theorem toLower_ne_colon {c : Char} (h : IsFormChar c) : c.toLower ≠ ':' := by
  rcases h with h | rfl
  · intro hcolon
    by_cases hc : c.toNat < 128
    · exact of_ascii (P := fun c => (Text.hexValue? c).isSome → c.toLower ≠ ':')
        (by decide +kernel) hc h hcolon
    · rw [hexValue?_of_not_ascii (Nat.le_of_not_lt hc)] at h
      cases h
  · decide

/-- The text is the hyphenated text of the uuid, but for the cases of its letters. -/
def IsTextOf (s : String) (u : Uuid) : Prop :=
  s.toList.map Char.toLower = u.textChars

/-- Of 36 digits and hyphens a uuid is read in the hyphenated form only. -/
theorem parse?_eq_some_iff_isTextOf {s : String} {u : Uuid} (hlength : s.toList.length = 36)
    (hs : ∀ c ∈ s.toList, IsFormChar c) : parse? s = some u ↔ IsTextOf s u := by
  have hname : (s.toList.take 9).map Char.toLower ≠ resourceName := by
    intro heq
    have hcolon : ':' ∈ (s.toList.take 9).map Char.toLower := by
      rw [heq]
      decide
    obtain ⟨c, hc, hlow⟩ := List.mem_map.1 hcolon
    exact toLower_ne_colon (hs c (List.mem_of_mem_take hc)) hlow
  have hwrapped : parseWrapped? s.toList = none := by
    rw [parseWrapped?, if_neg (by omega), if_neg hname]
  rw [IsTextOf, ← parseHyphenated?_eq_some_iff, parse?, if_neg (by omega), hwrapped]
  cases parseHyphenated? s.toList <;> simp

end Uuid
end Reclaim
