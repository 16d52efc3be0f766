import Reclaim.Dump.Row
import Reclaim.Proofs.Json.Codecs
import Reclaim.Proofs.Json.Strings

/-!
# The strings of dump rows

The strings of a row are those of its members and, where the metadata is given
as a text, those of the metadata that the text writes.  What is extracted from
a row is put together from them, since metadata has no other strings than the
value it is read from.

Main result: `Row.strings_subset_of_metadata`.
-/

namespace Reclaim

namespace Location

/-- The strings of a location. -/
def strings (l : Location) : List String :=
  l.datacenter.toList ++ [l.storageId] ++ l.serverUuid.toList ++
    l.zoneUuid.toList

/-- The strings of the fields that have been read. -/
def Draft.strings (d : Draft) : List String :=
  d.datacenter.join.toList ++ d.storageId.toList ++ d.serverUuid.join.toList ++
    d.zoneUuid.join.toList

end Location

namespace Metadata

/-- The strings of metadata but those in its upload. -/
def strings (m : Metadata) : List String :=
  [m.key, m.type] ++ m.objectId.toList ++ m.owner.toList ++
    m.locations.flatMap Location.strings

/-- The strings of the fields that have been read. -/
def Draft.strings (d : Draft) : List String :=
  d.key.toList ++ d.type.toList ++ d.objectId.join.toList ++
    d.owner.join.toList ++ (d.locations.getD []).flatMap Location.strings

theorem objectId_mem_strings {m : Metadata} {id : String}
    (h : m.objectId = some id) : id ∈ m.strings := by
  simp [strings, h]

theorem key_mem_strings (m : Metadata) : m.key ∈ m.strings := by
  simp [strings]

theorem owner_mem_strings {m : Metadata} {owner : String}
    (h : m.owner = some owner) : owner ∈ m.strings := by
  simp [strings, h]

theorem location_subset_strings {m : Metadata} {l : Location}
    (h : l ∈ m.locations) : l.strings ⊆ m.strings := by
  intro s hs
  simp only [strings, List.mem_append, List.mem_flatMap]
  exact .inr ⟨l, h, hs⟩

end Metadata

section Reading

open Json Json.Codec

variable {S : List String}

/-- The strings of a value are among the given ones. -/
def Json.Value.Within (S : List String) (v : Value) : Prop :=
  v.strings ⊆ S

theorem Json.Value.partsOf_within (S : List String) :
    PartsOf (Value.Within S) (Value.Within S) where
  items _ h _ hx := List.Subset.trans (strings_subset_itemStrings hx) h
  members _ h _ hm := List.Subset.trans (strings_subset_memberStrings hm) h

theorem gives_text : Codec.text.Gives (Value.Within S) (· ∈ S) :=
  .text fun s h => h (show s ∈ [s] from List.mem_singleton_self s)

theorem gives_optional_text :
    (Codec.optional Codec.text).Gives (Value.Within S) fun o =>
      o.toList ⊆ S := by
  intro v hv o ho s hs
  exact (gives_text.mono fun _ h => h.2).optional v hv o ho s
    (Option.mem_toList.1 hs)

namespace Location

theorem keptBy_fields :
    Gives.KeptBy fields (Value.Within S) fun d => d.strings ⊆ S := by
  simp only [Gives.KeptBy, fields, List.forall_mem_cons]
  refine ⟨?_, ?_, ?_, ?_, nofun⟩
  · refine gives_optional_text.map ?_
    intro o ho d hd
    simp only [Draft.strings, List.append_subset, Option.join_some] at hd ⊢
    exact ⟨⟨⟨ho, hd.1.1.2⟩, hd.1.2⟩, hd.2⟩
  · refine gives_text.map ?_
    intro s hs d hd
    simp only [Draft.strings, List.append_subset] at hd ⊢
    exact ⟨⟨⟨hd.1.1.1, by simpa using hs⟩, hd.1.2⟩, hd.2⟩
  · refine gives_optional_text.map ?_
    intro o ho d hd
    simp only [Draft.strings, List.append_subset, Option.join_some] at hd ⊢
    exact ⟨⟨hd.1.1, ho⟩, hd.2⟩
  · refine gives_optional_text.map ?_
    intro o ho d hd
    simp only [Draft.strings, List.append_subset, Option.join_some] at hd ⊢
    exact ⟨hd.1, ho⟩

theorem strings_ofDraft
    {d : Draft} {l : Location} (h : ofDraft d = .ok l) :
    l.strings = d.strings := by
  obtain ⟨id, hid, h⟩ := Success.of_bind h
  obtain rfl := Except.ok.inj h
  simp [Draft.strings, strings, eq_some_of_required hid]

/-- The strings of a location that is read are among those of the value. -/
theorem gives_codec :
    codec.Gives (Value.Within S) fun l => l.strings ⊆ S := by
  refine Gives.record (Value.partsOf_within S) keptBy_fields
    (List.nil_subset S) ?_
  intro d l hd finished
  rw [strings_ofDraft finished]
  exact hd

end Location

namespace Metadata

theorem keptBy_fields :
    Gives.KeptBy fields (Value.Within S) fun d => d.strings ⊆ S := by
  simp only [Gives.KeptBy, fields, List.forall_mem_cons]
  refine ⟨?_, ?_, ?_, ?_, ?_, ?_, ?_, nofun⟩
  · refine gives_text.map ?_
    intro s hs d hd
    simp only [Draft.strings, List.append_subset] at hd ⊢
    exact ⟨⟨⟨⟨by simpa using hs, hd.1.1.1.2⟩, hd.1.1.2⟩, hd.1.2⟩, hd.2⟩
  · refine gives_text.map ?_
    intro s hs d hd
    simp only [Draft.strings, List.append_subset] at hd ⊢
    exact ⟨⟨⟨⟨hd.1.1.1.1, by simpa using hs⟩, hd.1.1.2⟩, hd.1.2⟩, hd.2⟩
  · refine gives_optional_text.map ?_
    intro o ho d hd
    simp only [Draft.strings, List.append_subset, Option.join_some] at hd ⊢
    exact ⟨⟨⟨hd.1.1.1, ho⟩, hd.1.2⟩, hd.2⟩
  · refine gives_optional_text.map ?_
    intro o ho d hd
    simp only [Draft.strings, List.append_subset, Option.join_some] at hd ⊢
    exact ⟨⟨hd.1.1, ho⟩, hd.2⟩
  · refine (Location.gives_codec.list (Value.partsOf_within S)).map ?_
    intro ls hls d hd
    simp only [Draft.strings, List.append_subset, Option.getD_some] at hd ⊢
    refine ⟨hd.1, ?_⟩
    intro s hs
    obtain ⟨l, hl, hs⟩ := List.mem_flatMap.1 hs
    exact hls l hl hs
  · exact fun _ _ change h d hd => by
      obtain ⟨x, -, rfl⟩ := Success.of_map h
      exact hd
  · exact fun _ _ change h d hd => by
      obtain ⟨x, -, rfl⟩ := Success.of_map h
      exact hd

theorem strings_ofDraft
    {d : Draft} {m : Metadata} (h : ofDraft d = .ok m) :
    m.strings = d.strings := by
  obtain ⟨key, hkey, h⟩ := Success.of_bind h
  obtain ⟨type, htype, h⟩ := Success.of_bind h
  obtain rfl := Except.ok.inj h
  simp [Draft.strings, strings, eq_some_of_required hkey,
    eq_some_of_required htype]

/-- The strings of metadata that is read are among those of the value. -/
theorem gives_codec :
    codec.Gives (Value.Within S) fun m => m.strings ⊆ S := by
  refine Gives.record (Value.partsOf_within S) keptBy_fields
    (List.nil_subset S) ?_
  intro d m hd finished
  rw [strings_ofDraft finished]
  exact hd

end Metadata

end Reading

namespace Dump
namespace Row

/-- The strings of the metadata that a text writes. -/
def writtenStrings : Option Json.Value → List String
  | some (.string s) =>
      match Metadata.codec.ofText s with
      | .ok m => m.strings
      | .error _ => []
  | _ => []

/-- The strings of a row, and those of metadata that is given as a text. -/
def strings (r : Row) : List String :=
  Json.memberStrings r ++ writtenStrings (Json.getMember? "_value" r)

theorem mem_strings_of_text?
    {r : Row} {name s : String} (h : r.text? name = some s) :
    s ∈ r.strings := by
  obtain ⟨v, hv, hs⟩ := Option.bind_eq_some_iff.1 h
  cases v with
  | string t =>
      obtain rfl := Option.some.inj hs
      apply List.mem_append_left
      exact Json.strings_subset_of_getMember? hv (List.mem_singleton_self t)
  | _ => cases hs

/-- The strings of the metadata of a row are among those of the row. -/
theorem strings_subset_of_metadata
    {r : Row} {m : Metadata} (h : r.metadata = .ok m) :
    m.strings ⊆ r.strings := by
  simp only [metadata] at h
  split at h
  · next v hv =>
      have read := Success.of_mapError h
      rw [strings, hv]
      cases v with
      | string s =>
          simp only [writtenStrings]
          rw [show Metadata.codec.ofText s = .ok m from read]
          exact List.subset_append_right _ _
      | _ =>
          apply List.subset_append_of_subset_left
          exact Metadata.gives_codec _ (Json.strings_subset_of_getMember? hv) m
            read
  · cases h

end Row
end Dump
end Reclaim
