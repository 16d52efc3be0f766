import Reclaim.Metadata
import Reclaim.Proofs.Json.Records

/-!
# Written metadata is read back

Metadata is written as a record with all its fields, absent ones as null, so it
is read back as it was unless its upload is a null itself.

Main result: `ofText_text`.
-/

namespace Reclaim

namespace Location

open Json Json.Codec

theorem scansAs_textOrNull (s : Option String) :
    ScansAs (textOrNull s) := by
  cases s with
  | none => exact scansAs_null
  | some s => exact scansAs_string s

/-- A text that may be absent is taken as it is. -/
theorem takes_textOrNull (depth : Nat) (s : Option String) :
    Takes ((optional text).ofTokens depth) (textOrNull s) s := by
  cases s with
  | none => exact takes_null text depth
  | some s => exact takes_some nofun (takes_text depth s)

theorem scansAs_members (l : Location) : ScansAs (.object l.members) := by
  apply scansAs_object
  simp only [members, List.mem_cons, List.not_mem_nil, or_false]
  rintro m (rfl | rfl | rfl | rfl)
  · exact scansAs_textOrNull l.datacenter
  · exact scansAs_string l.storageId
  · exact scansAs_textOrNull l.serverUuid
  · exact scansAs_textOrNull l.zoneUuid

/-- A written location is taken as it is. -/
theorem takes_members (depth : Nat) (l : Location) :
    Takes (codec.ofTokens (depth + 1)) (.object l.members) l := by
  apply takes_record
  · apply visits_field rfl rfl (takes_map _ (takes_textOrNull depth _))
    apply visits_field rfl rfl (takes_map _ (takes_text depth _))
    apply visits_field rfl rfl (takes_map _ (takes_textOrNull depth _))
    apply visits_field rfl rfl (takes_map _ (takes_textOrNull depth _))
    exact .nil _
  · rfl

end Location

namespace Metadata

open Json Json.Codec

/-- Metadata that its text can carry: numbers fit, and the upload is not a null. -/
structure Writable (good : Number → Prop) (m : Metadata) : Prop where
  mtime : ∀ n ∈ m.mtime, -(Text.maxSigned64 : Int) - 1 ≤ n ∧
    n ≤ Text.maxSigned64
  upload_ne_null : ∀ v ∈ m.upload, v ≠ .null
  upload : ∀ v ∈ m.upload, v.Canonical good (maxDepth - 1)

/-- Metadata stays writable if less is asked of its numbers. -/
theorem Writable.mono
    {good fair : Number → Prop} (weaker : ∀ n, good n → fair n)
    {m : Metadata} (h : m.Writable good) : m.Writable fair :=
  ⟨h.mtime, h.upload_ne_null, fun v hv => (h.upload v hv).mono weaker⟩

theorem scansAs_members
    {m : Metadata} (h : m.Writable Number.ReadsBack) :
    ScansAs (.object m.members) := by
  apply scansAs_object
  simp only [members, List.mem_cons, List.not_mem_nil, or_false]
  rintro e (rfl | rfl | rfl | rfl | rfl | rfl | rfl)
  · exact scansAs_string m.key
  · exact scansAs_string m.type
  · exact Location.scansAs_textOrNull m.objectId
  · exact Location.scansAs_textOrNull m.owner
  · apply scansAs_array
    simp only [List.mem_map]
    rintro v ⟨l, -, rfl⟩
    exact l.scansAs_members
  · cases hm : m.mtime with
    | none => exact scansAs_null
    | some n =>
        have fits : (Number.integer n).IsInteger64 :=
          ⟨(h.mtime n hm).1, Int.le_trans (h.mtime n hm).2 (by decide)⟩
        exact scansAs_number fits.readsBack
  · cases hu : m.upload with
    | none => exact scansAs_null
    | some v => exact scansAs_of_canonical (h.upload v hu)

theorem takes_locations (depth : Nat) (ls : List Location) :
    Takes ((list Location.codec).ofTokens (depth + 2))
      (.array (ls.map fun l => .object l.members)) ls := by
  apply takes_list
  rw [List.forall₂_map_left_iff, List.forall₂_same]
  exact fun l _ => l.takes_members depth

theorem takes_mtime
    {m : Metadata} {good : Number → Prop} (h : m.Writable good) (depth : Nat) :
    Takes ((optional signed).ofTokens depth)
      (match m.mtime with
        | some n => .number (.integer n)
        | none => .null)
      m.mtime := by
  cases hm : m.mtime with
  | none => exact takes_null signed depth
  | some n =>
      obtain ⟨low, high⟩ := h.mtime n hm
      exact takes_some nofun (takes_signed depth low high)

theorem takes_upload
    {m : Metadata} (h : m.Writable Number.ReadsBack) :
    Takes ((optional value).ofTokens (maxDepth - 1)) (m.upload.getD .null)
      m.upload := by
  cases hu : m.upload with
  | none => exact takes_null value _
  | some v =>
      exact takes_some (h.upload_ne_null v hu) (takes_value (h.upload v hu))

/-- Written metadata is taken as it is. -/
theorem takes_members
    {m : Metadata} (h : m.Writable Number.ReadsBack) :
    Takes (codec.ofTokens maxDepth) (.object m.members) m := by
  apply takes_record
  · apply visits_field rfl rfl (takes_map _ (takes_text _ _))
    apply visits_field rfl rfl (takes_map _ (takes_text _ _))
    apply visits_field rfl rfl
      (takes_map _ (Location.takes_textOrNull _ _))
    apply visits_field rfl rfl
      (takes_map _ (Location.takes_textOrNull _ _))
    apply visits_field rfl rfl (takes_map _ (takes_locations _ _))
    apply visits_field rfl rfl (takes_map _ (takes_mtime h _))
    apply visits_field rfl rfl (takes_map _ (takes_upload h))
    exact .nil _
  · rfl

/-- The text of metadata is read as the metadata. -/
theorem ofText_text
    {m : Metadata} (h : m.Writable Number.ReadsBack) :
    codec.ofText m.text = .ok m :=
  readText_of_takes (scansAs_members h) (takes_members h)

end Metadata
end Reclaim
