import Reclaim.Audit.Extract
import Reclaim.Cruft.Extract
import Reclaim.Object.Extract
import Reclaim.Placement.Extract
import Reclaim.Proofs.Dump.Strings
import Reclaim.Proofs.Wire.Texts
import Reclaim.Upload.Extract

/-!
# Where the texts of extracted rows come from

The texts of a row that is extracted from a dump are strings of the row of the
dump, or the shard that the dump was taken from.

Main results: `texts_subset_of_ofDump` of each type of row.
-/

namespace Reclaim

variable {origin : Dump.Origin} {row : Dump.Row}

namespace Object
namespace Row

/-- A live row names the object of the metadata. -/
theorem of_liveOfDump {rs : List Row} (h : liveOfDump row = .ok rs) :
    ∀ r ∈ rs, ∃ m id, row.metadata = .ok m ∧ m.objectId = some id ∧
      row.date = .ok r.date ∧ r = ⟨id, r.date, .live⟩ := by
  obtain ⟨m, hm, h⟩ := Success.of_bind h
  split at h
  · split at h
    · cases h
    · next id hid =>
        obtain ⟨date, hdate, h⟩ := Success.of_bind h
        obtain rfl := Except.ok.inj h
        rintro r hr
        obtain rfl := List.mem_singleton.1 hr
        exact ⟨m, id, hm, hid, hdate, rfl⟩
  · obtain rfl := Except.ok.inj h
    nofun

/-- A tombstone carries the whole row of the dump. -/
theorem of_deadOfDump {rs : List Row} (h : deadOfDump origin row = .ok rs) :
    ∀ r ∈ rs, ∃ id, deletedId row = .ok id ∧ row.date = .ok r.date ∧
      r = ⟨id, r.date, .dead (.object row) origin.shard⟩ := by
  obtain ⟨date, hdate, h⟩ := Success.of_bind h
  split at h
  · obtain ⟨id, hid, h⟩ := Success.of_bind h
    obtain rfl := Except.ok.inj h
    rintro r hr
    obtain rfl := List.mem_singleton.1 hr
    exact ⟨id, hid, hdate, rfl⟩
  · obtain rfl := Except.ok.inj h
    nofun

theorem deletedId_mem_strings {id : String} (h : deletedId row = .ok id) :
    id ∈ row.strings := by
  rw [deletedId] at h
  split at h
  · next text htext =>
      obtain rfl := Except.ok.inj h
      exact Dump.Row.mem_strings_of_text? htext
  · obtain ⟨m, hm, h⟩ := Success.of_bind h
    split at h
    · next id' hid =>
        obtain rfl := Except.ok.inj h
        exact Dump.Row.strings_subset_of_metadata hm
          (Metadata.objectId_mem_strings hid)
    · cases h

/-- A row is extracted as a live row or as a tombstone. -/
theorem cases_ofDump {rs : List Row} (h : ofDump origin row = .ok rs) :
    liveOfDump row = .ok rs ∨ deadOfDump origin row = .ok rs ∨ rs = [] := by
  rw [ofDump] at h
  split at h
  · exact .inl h
  · split at h
    · exact .inr (.inl h)
    · exact .inr (.inr (Except.ok.inj h).symm)

theorem texts_subset_of_ofDump
    {rs : List Row} (h : ofDump origin row = .ok rs) :
    ∀ r ∈ rs, r.texts ⊆ origin.shard :: row.strings := by
  intro r hr
  rcases cases_ofDump h with h | h | rfl
  · obtain ⟨m, id, hm, hid, -, heq⟩ := of_liveOfDump h r hr
    have known := Dump.Row.strings_subset_of_metadata hm
      (Metadata.objectId_mem_strings hid)
    rw [heq]
    simp [texts, known]
  · obtain ⟨id, hid, -, heq⟩ := of_deadOfDump h r hr
    rw [heq]
    simp [texts, deletedId_mem_strings hid]
  · cases hr

end Row
end Object

namespace Upload
namespace Record

/-- A live record has the key and the date of the row. -/
theorem of_liveOfDump {rs : List Record} (h : liveOfDump row = .ok rs) :
    ∀ r ∈ rs, ∃ m l, row.metadata = .ok m ∧ r = .live l ∧ l.key = m.key ∧
      row.date = .ok l.date := by
  obtain ⟨m, hm, h⟩ := Success.of_bind h
  split at h
  · obtain rfl := Except.ok.inj h
    nofun
  · split at h
    · cases h
    · split at h
      · obtain rfl := Except.ok.inj h
        nofun
      · obtain ⟨date, hdate, h⟩ := Success.of_bind h
        obtain rfl := Except.ok.inj h
        rintro r hr
        obtain rfl := List.mem_singleton.1 hr
        exact ⟨m, _, hm, rfl, rfl, hdate⟩

/-- The key of a live record is the path of an upload or part, and states the upload. -/
theorem path_of_liveOfDump {rs : List Record} (h : liveOfDump row = .ok rs) :
    ∀ r ∈ rs, ∃ l path, r = .live l ∧ Path.parse? l.key = some path ∧
      Uuid.parse? (String.ofList path.upload) = some l.upload := by
  obtain ⟨m, -, h⟩ := Success.of_bind h
  split at h
  · obtain rfl := Except.ok.inj h
    nofun
  · next path hpath =>
      split at h
      · cases h
      · next upload hupload =>
          split at h
          · obtain rfl := Except.ok.inj h
            nofun
          · obtain ⟨date, -, h⟩ := Success.of_bind h
            obtain rfl := Except.ok.inj h
            rintro r hr
            obtain rfl := List.mem_singleton.1 hr
            exact ⟨_, path, rfl, hpath, hupload⟩

/-- A finalizing record has the key and the date of the row. -/
theorem of_finalizingOfDump
    {rs : List Record} (h : finalizingOfDump origin row = .ok rs) :
    ∀ r ∈ rs, ∃ f, r = .finalizing f ∧ row.text? "_key" = some f.key ∧
      f.shard = origin.shard ∧ row.date = .ok f.date := by
  rw [finalizingOfDump] at h
  split at h
  · cases h
  · cases h
  · next key value hkey _ =>
      obtain ⟨outcome, -, h⟩ := Success.of_bind h
      dsimp only at h
      split at h
      · cases h
      · obtain ⟨date, hdate, h⟩ := Success.of_bind h
        obtain rfl := Except.ok.inj h
        rintro r hr
        obtain rfl := List.mem_singleton.1 hr
        exact ⟨_, rfl, hkey, rfl, hdate⟩

theorem cases_ofDump {rs : List Record} (h : ofDump origin row = .ok rs) :
    liveOfDump row = .ok rs ∨ finalizingOfDump origin row = .ok rs ∨
      rs = [] := by
  rw [ofDump] at h
  split at h
  · exact .inl h
  · split at h
    · exact .inr (.inl h)
    · exact .inr (.inr (Except.ok.inj h).symm)

theorem texts_subset_of_ofDump
    {rs : List Record} (h : ofDump origin row = .ok rs) :
    ∀ r ∈ rs, r.texts ⊆ origin.shard :: row.strings := by
  intro r hr
  rcases cases_ofDump h with h | h | rfl
  · obtain ⟨m, l, hm, rfl, hkey, -⟩ := of_liveOfDump h r hr
    have known := Dump.Row.strings_subset_of_metadata hm m.key_mem_strings
    simp [texts, key, hkey, known]
  · obtain ⟨f, rfl, hkey, hshard, -⟩ := of_finalizingOfDump h r hr
    have known := Dump.Row.mem_strings_of_text? hkey
    simp [texts, key, hshard, known]
  · cases hr

end Record
end Upload

namespace Cruft
namespace Row

/-- What is extracted are references to the objects of metadata. -/
theorem of_ofDump {rs : List Row} (h : ofDump row = .ok rs) :
    ∀ r ∈ rs, ∃ m id, row.metadata = .ok m ∧ m.objectId = some id ∧
      r = .reference id := by
  rw [ofDump] at h
  split at h
  · obtain ⟨m, hm, h⟩ := Success.of_bind h
    obtain rfl := Except.ok.inj h
    intro r hr
    rw [ofMetadata] at hr
    split at hr
    · next id hid =>
        split at hr
        · obtain rfl := List.mem_singleton.1 hr
          exact ⟨m, id, hm, hid, rfl⟩
        · cases hr
    · cases hr
  · obtain rfl := Except.ok.inj h
    nofun

theorem texts_subset_of_ofDump {rs : List Row} (h : ofDump row = .ok rs) :
    ∀ r ∈ rs, r.texts ⊆ row.strings := by
  intro r hr
  obtain ⟨m, id, hm, hid, rfl⟩ := of_ofDump h r hr
  have known := Dump.Row.strings_subset_of_metadata hm
    (Metadata.objectId_mem_strings hid)
  simp [texts, known]

end Row
end Cruft

namespace Audit
namespace Row

/-- What is extracted are the replicas that metadata places. -/
theorem of_ofDump {rs : List Row} (h : ofDump row = .ok rs) :
    ∀ r ∈ rs, ∃ m id, row.metadata = .ok m ∧ m.objectId = some id ∧
      ∃ l ∈ m.locations,
        r = .expected id l.storageId (m.owner.getD "") m.key := by
  rw [ofDump] at h
  split at h
  · obtain ⟨m, hm, h⟩ := Success.of_bind h
    rw [ofMetadata] at h
    split at h
    · split at h
      · cases h
      · next id hid =>
          obtain rfl := Except.ok.inj h
          intro r hr
          obtain ⟨l, hl, rfl⟩ := List.mem_map.1 hr
          exact ⟨m, id, hm, hid, l, hl, rfl⟩
    · obtain rfl := Except.ok.inj h
      nofun
  · obtain rfl := Except.ok.inj h
    nofun

/-- An object without owner is extracted with an empty text for the owner. -/
theorem texts_subset_of_ofDump {rs : List Row} (h : ofDump row = .ok rs) :
    ∀ r ∈ rs, r.texts ⊆ "" :: row.strings := by
  intro r hr
  obtain ⟨m, id, hm, hid, l, hl, rfl⟩ := of_ofDump h r hr
  have known := Dump.Row.strings_subset_of_metadata hm
  have storageId : l.storageId ∈ row.strings := by
    apply known
    apply Metadata.location_subset_strings hl
    simp [Location.strings]
  have owner : m.owner.getD "" ∈ "" :: row.strings := by
    cases ho : m.owner with
    | none => exact List.mem_cons_self
    | some owner =>
        exact List.mem_cons_of_mem _ (known (Metadata.owner_mem_strings ho))
  simp only [texts, List.cons_subset]
  exact ⟨List.mem_cons_of_mem _ (known (Metadata.objectId_mem_strings hid)),
    List.mem_cons_of_mem _ storageId, owner,
    List.mem_cons_of_mem _ (known m.key_mem_strings), List.nil_subset _⟩

end Row
end Audit

namespace Placement
namespace Row

/-- What is extracted carries the metadata of the row and the shard. -/
theorem of_ofDump {rs : List Row} (h : ofDump origin row = .ok rs) :
    ∀ r ∈ rs, row.metadata = .ok r.metadata ∧ r.shard = origin.shard ∧
      r.metadata.objectId = some r.objectId := by
  rw [ofDump] at h
  split at h
  · obtain ⟨m, hm, h⟩ := Success.of_bind h
    rw [ofMetadata] at h
    split at h
    · split at h
      · cases h
      · next id hid =>
          obtain rfl := Except.ok.inj h
          intro r hr
          obtain rfl := List.mem_singleton.1 hr
          exact ⟨hm, rfl, hid⟩
    · obtain rfl := Except.ok.inj h
      nofun
  · obtain rfl := Except.ok.inj h
    nofun

theorem texts_subset_of_ofDump
    {rs : List Row} (h : ofDump origin row = .ok rs) :
    ∀ r ∈ rs, r.texts ⊆ origin.shard :: row.strings := by
  intro r hr
  obtain ⟨hm, hshard, hid⟩ := of_ofDump h r hr
  have known := Dump.Row.strings_subset_of_metadata hm
    (Metadata.objectId_mem_strings hid)
  simp [texts, hshard, known]

end Row
end Placement
end Reclaim
