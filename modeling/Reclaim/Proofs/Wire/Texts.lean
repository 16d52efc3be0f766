import Reclaim.Listing
import Reclaim.Proofs.Success
import Reclaim.Proofs.Text.OneLine
import Reclaim.Proofs.Wire.Lines

/-!
# The texts of rows

Some texts of a row are written into its line as they are, such as the id of an
object; everything else is printed in a form without control characters.  So a
line has no newlines but those of the texts, and the texts of a row that is read
are parts of the line.

Main results: `oneLine_line` and `texts_of_parse` of each type of row, and
`Listing.texts_of_parse`.
-/

namespace Reclaim

theorem tab_ne_newline : Text.newline ≠ Text.tab := by
  decide

namespace Object
namespace Row

/-- The texts that the line of a row holds as they are. -/
def texts (r : Row) : List String :=
  r.objectId ::
    match r.state with
    | .live => []
    | .dead _ shard => [shard]

theorem oneLine_line {r : Row} (h : ∀ s ∈ r.texts, Text.OneLine s) :
    Text.OneLine r.line := by
  obtain ⟨objectId, date, state⟩ := r
  cases state with
  | live =>
      simp only [texts, List.forall_mem_cons] at h
      apply Text.oneLine_join tab_ne_newline
      simp only [fields, List.forall_mem_cons]
      exact ⟨h.1, date.printable_text.oneLine, by decide, List.forall_mem_nil _⟩
  | dead payload shard =>
      simp only [texts, List.forall_mem_cons] at h
      apply Text.oneLine_join tab_ne_newline
      simp only [fields, List.forall_mem_cons]
      exact ⟨h.1, date.printable_text.oneLine, by decide,
        (Json.printable_text payload).oneLine, h.2.1, List.forall_mem_nil _⟩

theorem texts_of_stateOf
    {fs : List String} {state : State} (h : stateOf fs = .ok state) :
    ∀ payload shard, state = .dead payload shard → shard ∈ fs := by
  rintro payload shard rfl
  unfold stateOf at h
  split at h
  · cases h
  · split at h
    · cases h
      simp
    · cases h
  · cases h

/-- The texts of a row that is read are parts of the line. -/
theorem texts_of_parse {line : String} {r : Row} (h : parse line = .ok r) :
    ∀ s ∈ r.texts, s.toList ⊆ line.toList := by
  rw [parse] at h
  split at h
  · next objectId date kind rest heq =>
      split at h
      · cases h
      · split at h
        · cases h
        · next t _ =>
            obtain ⟨state, hstate, h⟩ := Success.of_bind h
            obtain rfl := Except.ok.inj h
            have part : ∀ f ∈ objectId :: date :: kind :: rest,
                f.toList ⊆ line.toList := by
              rw [← heq]
              exact fun f => Text.subset_of_mem_fieldsAtMost
            cases state with
            | live =>
                simpa [texts] using part objectId List.mem_cons_self
            | dead payload shard =>
                have shardMem := texts_of_stateOf hstate payload shard rfl
                simp only [texts, List.forall_mem_cons]
                exact ⟨part objectId (by simp), part shard (by simp [shardMem]),
                  List.forall_mem_nil _⟩
  · cases h

end Row
end Object

namespace Upload
namespace Record

/-- The texts that the line of a record holds as they are. -/
def texts (r : Record) : List String :=
  r.key ::
    match r with
    | finalizing f => [f.shard]
    | live _ => []

theorem oneLine_line {r : Record} (h : ∀ s ∈ r.texts, Text.OneLine s) :
    Text.OneLine r.line := by
  have key : Text.OneLine r.key := h r.key List.mem_cons_self
  have rest : ∀ f ∈ (match r with
      | finalizing f => [f.shard, f.outcome.text]
      | live _ => []), Text.OneLine f := by
    cases r with
    | finalizing f =>
        have outcome : Text.OneLine f.outcome.text := by
          cases f.outcome <;> decide
        simp only [List.forall_mem_cons]
        exact ⟨h f.shard (by simp [texts]), outcome, List.forall_mem_nil _⟩
    | live l => nofun
  apply Text.oneLine_join tab_ne_newline
  simp only [fields, List.cons_append, List.nil_append, List.forall_mem_cons]
  exact ⟨r.upload.printable_text.oneLine,
    (Text.printable_toString_nat r.tag).oneLine,
    r.date.printable_text.oneLine, key, rest⟩

theorem texts_of_parseRest
    {u : Uuid} {t : Time.Instant} {tag rest : String} {r : Record}
    (h : parseRest u t tag rest = .ok r) :
    ∀ s ∈ r.texts, s.toList ⊆ rest.toList := by
  rw [parseRest] at h
  split at h
  · split at h
    · next key shard outcome heq =>
        obtain ⟨o, -, h⟩ := Success.of_bind h
        obtain rfl := Except.ok.inj h
        have part : ∀ f ∈ [key, shard, outcome], f.toList ⊆ rest.toList := by
          rw [← heq]
          exact fun f => Text.subset_of_mem_fieldsAtMostFromEnd
        simp only [texts, List.forall_mem_cons]
        exact ⟨part key (by simp), part shard (by simp), List.forall_mem_nil _⟩
    · cases h
  · split at h
    · obtain rfl := Except.ok.inj h
      simp [texts, key]
    · split at h
      · obtain rfl := Except.ok.inj h
        simp [texts, key]
      · cases h

/-- The texts of a record that is read are parts of the line. -/
theorem texts_of_parse {line : String} {r : Record} (h : parse line = .ok r) :
    ∀ s ∈ r.texts, s.toList ⊆ line.toList := by
  rw [parse] at h
  split at h
  · next upload tag date rest heq =>
      split at h
      · cases h
      · split at h
        · cases h
        · have restPart : rest.toList ⊆ line.toList := by
            apply Text.subset_of_mem_fieldsAtMost
            rw [heq]
            simp
          exact fun s hs =>
            List.Subset.trans (texts_of_parseRest h s hs) restPart
  · cases h

end Record
end Upload

namespace Cruft
namespace Row

/-- The texts that the line of a row holds as they are. -/
def texts : Row → List String
  | stored objectId storageId owner _ => [objectId, storageId, owner]
  | reference objectId => [objectId]

theorem oneLine_line {r : Row} (h : ∀ s ∈ r.texts, Text.OneLine s) :
    Text.OneLine r.line := by
  cases r with
  | stored objectId storageId owner date =>
      simp only [texts, List.forall_mem_cons] at h
      apply Text.oneLine_join tab_ne_newline
      simp only [List.forall_mem_cons]
      exact ⟨h.1, by decide, h.2.1, h.2.2.1, date.printable_text.oneLine,
        List.forall_mem_nil _⟩
  | reference objectId =>
      simp only [texts, List.forall_mem_cons] at h
      apply Text.oneLine_join tab_ne_newline
      simp only [List.forall_mem_cons]
      exact ⟨h.1, by decide, List.forall_mem_nil _⟩

/-- The texts of a row that is read are parts of the line. -/
theorem texts_of_parse {line : String} {r : Row} (h : parse line = .ok r) :
    ∀ s ∈ r.texts, s.toList ⊆ line.toList := by
  have part : ∀ f ∈ Text.fields Text.tab line, f.toList ⊆ line.toList :=
    fun f => Text.subset_of_mem_fields
  rw [parse] at h
  split at h
  · next objectId kind heq =>
      split at h
      · obtain rfl := Except.ok.inj h
        simp only [heq, List.forall_mem_cons] at part
        simp only [texts, List.forall_mem_cons]
        exact ⟨part.1, List.forall_mem_nil _⟩
      · cases h
  · next objectId kind storageId owner date heq =>
      split at h
      · split at h
        · obtain rfl := Except.ok.inj h
          simp only [heq, List.forall_mem_cons] at part
          simp only [texts, List.forall_mem_cons]
          exact ⟨part.1, part.2.2.1, part.2.2.2.1, List.forall_mem_nil _⟩
        · cases h
      · cases h
  · cases h

end Row
end Cruft

namespace Audit
namespace Row

/-- The texts that the line of a row holds as they are. -/
def texts : Row → List String
  | stored objectId storageId => [objectId, storageId]
  | expected objectId storageId owner key => [objectId, storageId, owner, key]

theorem oneLine_line {r : Row} (h : ∀ s ∈ r.texts, Text.OneLine s) :
    Text.OneLine r.line := by
  cases r with
  | stored objectId storageId =>
      simp only [texts, List.forall_mem_cons] at h
      apply Text.oneLine_join tab_ne_newline
      simp only [List.forall_mem_cons]
      exact ⟨h.1, by decide, h.2.1, List.forall_mem_nil _⟩
  | expected objectId storageId owner key =>
      simp only [texts, List.forall_mem_cons] at h
      apply Text.oneLine_join tab_ne_newline
      simp only [List.forall_mem_cons]
      exact ⟨h.1, by decide, h.2.1, h.2.2.1, h.2.2.2.1, List.forall_mem_nil _⟩

/-- The texts of a row that is read are parts of the line. -/
theorem texts_of_parse {line : String} {r : Row} (h : parse line = .ok r) :
    ∀ s ∈ r.texts, s.toList ⊆ line.toList := by
  have part : ∀ f ∈ Text.fieldsAtMost Text.tab 5 line,
      f.toList ⊆ line.toList :=
    fun f => Text.subset_of_mem_fieldsAtMost
  rw [parse] at h
  split at h
  · next objectId kind storageId heq =>
      split at h
      · obtain rfl := Except.ok.inj h
        simp only [heq, List.forall_mem_cons] at part
        simp only [texts, List.forall_mem_cons]
        exact ⟨part.1, part.2.2.1, List.forall_mem_nil _⟩
      · cases h
  · next objectId kind storageId owner key heq =>
      split at h
      · obtain rfl := Except.ok.inj h
        simp only [heq, List.forall_mem_cons] at part
        simp only [texts, List.forall_mem_cons]
        exact ⟨part.1, part.2.2.1, part.2.2.2.1, part.2.2.2.2.1,
          List.forall_mem_nil _⟩
      · cases h
  · cases h

end Row
end Audit

namespace Placement
namespace Row

/-- The texts that the line of a row holds as they are. -/
def texts (r : Row) : List String :=
  [r.objectId, r.shard]

theorem oneLine_line {r : Row} (h : ∀ s ∈ r.texts, Text.OneLine s) :
    Text.OneLine r.line := by
  simp only [texts, List.forall_mem_cons] at h
  apply Text.oneLine_join tab_ne_newline
  simp only [List.forall_mem_cons]
  exact ⟨h.1, h.2.1, (Json.printable_text _).oneLine, List.forall_mem_nil _⟩

/-- The texts of a row that is read are parts of the line. -/
theorem texts_of_parse {line : String} {r : Row} (h : parse line = .ok r) :
    ∀ s ∈ r.texts, s.toList ⊆ line.toList := by
  have part : ∀ f ∈ Text.fieldsAtMost Text.tab 3 line,
      f.toList ⊆ line.toList :=
    fun f => Text.subset_of_mem_fieldsAtMost
  rw [parse] at h
  split at h
  · next objectId shard metadata heq =>
      split at h
      · obtain rfl := Except.ok.inj h
        simp only [heq, List.forall_mem_cons] at part
        simp only [texts, List.forall_mem_cons]
        exact ⟨part.1, part.2.1, List.forall_mem_nil _⟩
      · cases h
  · cases h

end Row
end Placement

namespace Listing

theorem subset_of_ownerAndId?
    {path owner objectId : String}
    (h : ownerAndId? path = some (owner, objectId)) :
    owner.toList ⊆ path.toList ∧ objectId.toList ⊆ path.toList := by
  rw [ownerAndId?] at h
  split at h
  · next o i heq =>
      split at h
      · cases h
      · cases h
        have part : ∀ p ∈ [o, i], p ⊆ path.toList := by
          rw [← heq]
          intro p hp
          have trimmed : (Text.trimStart '/' path.toList).Sublist path.toList :=
            List.dropWhile_sublist _
          exact List.Subset.trans (Text.subset_of_mem_pieces hp) trimmed.subset
        simp only [String.toList_ofList]
        exact ⟨part o (by simp), part i (by simp)⟩
  · cases h

/-- Owner and object of a listed file are parts of the line. -/
theorem texts_of_parse
    {storageId line : String} {l : Listing} (h : parse storageId line = .ok l) :
    l.storageId = storageId ∧ l.owner.toList ⊆ line.toList ∧
      l.objectId.toList ⊆ line.toList := by
  rw [parse] at h
  split at h
  · next path size mtime heq =>
      have part : path.toList ⊆ line.toList := by
        apply Text.subset_of_mem_fields
        rw [heq]
        exact List.mem_cons_self
      split at h
      · cases h
      · next owner objectId hids =>
          obtain ⟨hown, hid⟩ := subset_of_ownerAndId? hids
          obtain ⟨bytes, -, h⟩ := Success.of_bind h
          obtain ⟨seconds, -, h⟩ := Success.of_bind h
          split at h
          · obtain rfl := Except.ok.inj h
            exact ⟨rfl, List.Subset.trans hown part,
              List.Subset.trans hid part⟩
          · cases h
  · cases h

end Listing
end Reclaim
