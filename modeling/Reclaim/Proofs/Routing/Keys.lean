import Mathlib.Data.List.TakeWhile
import Reclaim.Audit.Row
import Reclaim.Cruft.Row
import Reclaim.Object.Row
import Reclaim.Proofs.Success
import Reclaim.Proofs.Wire.Lines
import Reclaim.Routing.Key
import Reclaim.Upload.Record

/-!
# Keys of lines and names of rows

In each sorted format, the line of a row starts with the name of its group, which
ends at the first tab.  This is what a router takes for the key of the line if
it looks at the first field.

Main results: `extract_first_field`, and `objectId_of_parse` and
`upload_of_parse` for the rows.
-/

namespace Reclaim

namespace Text

/-- The text before the first separator, or all of it. -/
def firstField (sep : Char) (s : String) : String :=
  String.ofList (s.toList.takeWhile (· ≠ sep))

variable {sep : Char}

theorem takeWhile_of_not_mem {s : List Char} (h : sep ∉ s) :
    s.takeWhile (· ≠ sep) = s := by
  rw [List.takeWhile_eq_self_iff]
  intro c hc
  have hne : c ≠ sep := fun heq => h (heq ▸ hc)
  simpa using hne

theorem takeWhile_append_cons {before : List Char} (after : List Char)
    (h : sep ∉ before) :
    (before ++ sep :: after).takeWhile (· ≠ sep) = before := by
  induction before with
  | nil => simp
  | cons c before ih =>
      rw [List.mem_cons, not_or] at h
      have hne : c ≠ sep := Ne.symm h.1
      rw [List.cons_append, List.takeWhile_cons_of_pos (by simpa using hne),
        ih h.2]

/-- The first of the pieces ends at the first separator. -/
theorem head?_pieces (sep : Char) (s : List Char) :
    (pieces sep s).head? = some (s.takeWhile (· ≠ sep)) := by
  induction s with
  | nil => rfl
  | cons c r ih =>
      by_cases hc : c = sep
      · simp [pieces, hc]
      · rw [List.takeWhile_cons_of_pos (by simpa using hc)]
        cases hp : pieces sep r with
        | nil => exact absurd hp (pieces_ne_nil sep r)
        | cons p ps =>
            rw [hp] at ih
            obtain rfl := Option.some.inj ih
            simp [pieces, hc, hp]

/-- So does the first of at most some pieces, if there may be two. -/
theorem head?_piecesAtMost (sep : Char) (n : Nat) (s : List Char) :
    (piecesAtMost sep (n + 2) s).head? = some (s.takeWhile (· ≠ sep)) := by
  cases hcut : cut? sep s with
  | none =>
      rw [takeWhile_of_not_mem (cut?_eq_none_iff.1 hcut)]
      simp [piecesAtMost, hcut]
  | some parts =>
      obtain ⟨hs, hbefore⟩ := cut?_eq_some hcut
      have hfirst : s.takeWhile (· ≠ sep) = parts.1 := by
        rw [hs]
        exact takeWhile_append_cons _ hbefore
      rw [hfirst]
      simp [piecesAtMost, hcut]

theorem head?_fields (sep : Char) (s : String) :
    (fields sep s).head? = some (firstField sep s) := by
  rw [fields, List.head?_map, head?_pieces]
  rfl

theorem head?_fieldsAtMost (sep : Char) (n : Nat) (s : String) :
    (fieldsAtMost sep (n + 2) s).head? = some (firstField sep s) := by
  rw [fieldsAtMost, List.head?_map, head?_piecesAtMost]
  rfl

theorem eq_firstField_of_fields
    {s f : String} {fs : List String} (h : fields sep s = f :: fs) :
    f = firstField sep s := by
  have hhead := head?_fields sep s
  rw [h] at hhead
  exact Option.some.inj hhead

theorem eq_firstField_of_fieldsAtMost
    {n : Nat} {s f : String} {fs : List String}
    (h : fieldsAtMost sep (n + 2) s = f :: fs) :
    f = firstField sep s := by
  have hhead := head?_fieldsAtMost sep n s
  rw [h] at hhead
  exact Option.some.inj hhead

end Text

namespace Routing

/-- A delimiter of one character cuts where a separator does. -/
theorem piecesBetween_singleton (d : Char) (s : List Char) :
    piecesBetween d [] s = Text.pieces d s := by
  induction s with
  | nil => rw [piecesBetween, Text.pieces]
  | cons c r ih =>
      rw [piecesBetween, Text.pieces]
      simp only [List.length_nil, List.drop_zero, ih]
      by_cases hc : c = d
      · simp [hc]
      · obtain ⟨p, ps, hps⟩ :=
          List.exists_cons_of_ne_nil (Text.pieces_ne_nil d r)
        simp only [List.isPrefixOf, beq_eq_false_iff_ne.2 (Ne.symm hc),
          Bool.false_and, Bool.false_eq_true, if_false, if_neg hc, hps]

/-- The first field between tabs ends at the first tab. -/
theorem extract_first_field (line : String) :
    (KeyPart.field 0 "\t").extract line = Text.firstField '\t' line := by
  have htab : delimited "\t" line = Text.fields '\t' line := by
    rw [delimited, show "\t".toList = ['\t'] from rfl]
    simp only [piecesBetween_singleton, Text.fields]
  have hhead := Text.head?_fields '\t' line
  rw [KeyPart.extract, htab]
  cases hfields : Text.fields '\t' line with
  | nil =>
      rw [hfields] at hhead
      cases hhead
  | cons f fs =>
      rw [hfields] at hhead
      exact Option.some.inj hhead

end Routing

namespace Object.Row

/-- The line of a row starts with its object. -/
theorem objectId_of_parse {line : String} {r : Row} (h : parse line = .ok r) :
    r.objectId = Text.firstField '\t' line := by
  rw [parse] at h
  split at h
  · next objectId date kind rest heq =>
      split at h
      · cases h
      · split at h
        · cases h
        · obtain ⟨state, -, h⟩ := Success.of_bind h
          obtain rfl := Except.ok.inj h
          exact Text.eq_firstField_of_fieldsAtMost heq
  · cases h

end Object.Row

namespace Cruft.Row

/-- The line of a row starts with its object. -/
theorem objectId_of_parse {line : String} {r : Row} (h : parse line = .ok r) :
    r.objectId = Text.firstField '\t' line := by
  rw [parse] at h
  split at h
  · next objectId kind heq =>
      split at h
      · obtain rfl := Except.ok.inj h
        exact Text.eq_firstField_of_fields heq
      · cases h
  · next objectId kind storageId owner date heq =>
      split at h
      · split at h
        · obtain rfl := Except.ok.inj h
          exact Text.eq_firstField_of_fields heq
        · cases h
      · cases h
  · cases h

end Cruft.Row

namespace Audit.Row

/-- The line of a row starts with its object. -/
theorem objectId_of_parse {line : String} {r : Row} (h : parse line = .ok r) :
    r.objectId = Text.firstField '\t' line := by
  rw [parse] at h
  split at h
  · next objectId kind storageId heq =>
      split at h
      · obtain rfl := Except.ok.inj h
        exact Text.eq_firstField_of_fieldsAtMost heq
      · cases h
  · next objectId kind storageId owner key heq =>
      split at h
      · obtain rfl := Except.ok.inj h
        exact Text.eq_firstField_of_fieldsAtMost heq
      · cases h
  · cases h

end Audit.Row

namespace Upload.Record

theorem upload_of_parseRest
    {upload : Uuid} {date : Time.Instant} {tag rest : String} {r : Record}
    (h : parseRest upload date tag rest = .ok r) : r.upload = upload := by
  rw [parseRest] at h
  split at h
  · split at h
    · obtain ⟨outcome, -, h⟩ := Success.of_bind h
      obtain rfl := Except.ok.inj h
      rfl
    · cases h
  · split at h
    · obtain rfl := Except.ok.inj h
      rfl
    · split at h
      · obtain rfl := Except.ok.inj h
        rfl
      · cases h

/-- The line of a record starts with a text of its upload. -/
theorem upload_of_parse {line : String} {r : Record} (h : parse line = .ok r) :
    Uuid.parse? (Text.firstField '\t' line) = some r.upload := by
  rw [parse] at h
  split at h
  · next upload tag date rest heq =>
      rw [← Text.eq_firstField_of_fieldsAtMost heq]
      split at h
      · cases h
      · next u hu =>
          split at h
          · cases h
          · rw [hu, upload_of_parseRest h]
  · cases h

/-- The line that is written of a record starts with the text of its upload. -/
theorem firstField_line (r : Record) :
    Text.firstField '\t' r.line = r.upload.text := by
  have htab : '\t' ∉ r.upload.text.toList := r.upload.printable_text.tab_not_mem
  obtain ⟨f, fs, hfields⟩ : ∃ f fs, r.fields = r.upload.text :: f :: fs :=
    ⟨_, _, rfl⟩
  rw [Text.firstField, line, hfields,
    Text.toList_join_cons '\t' _ (List.cons_ne_nil f fs),
    Text.takeWhile_append_cons _ htab, String.ofList_toList]

end Upload.Record
end Reclaim
