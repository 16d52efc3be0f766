import Reclaim.Dump.Decoder
import Reclaim.Proofs.Json.Codecs
import Reclaim.Proofs.Json.Strings
import Reclaim.Proofs.Metadata

/-!
# What is decoded can be written

A row that has been decoded from a dump has its members in order, and none of
them nests deeper than the bound.  The metadata of such a row is as it can be
read: its time of change and its upload fit into what it is written as.  So
metadata is lost at most by numbers that are not read back.

Main results: `canonical_of_decodeLine` and `Row.isRead_of_metadata`.
-/

namespace Reclaim

open Json Json.Codec

/-- All numbers in the value are read back from what is printed of them. -/
def Json.Value.Legible (v : Value) : Prop :=
  ∃ depth, v.Canonical Number.ReadsBack depth

theorem Json.Value.partsOf_canonical (good : Number → Prop) (depth : Nat) :
    PartsOf (Value.Canonical good (depth + 1)) (Value.Canonical good depth) where
  items _ h := by
    cases h with
    | array items => exact items
  members _ h := by
    cases h with
    | object _ values => exact values

namespace Metadata

/-- Metadata as it can be read. -/
structure IsRead (m : Metadata) : Prop where
  mtime : ∀ n ∈ m.mtime, -(Text.maxSigned64 : Int) - 1 ≤ n ∧
    n ≤ Text.maxSigned64
  upload : ∀ v ∈ m.upload, v ≠ .null ∧ v.Canonical Number.Fits (maxDepth - 1)

/-- Fields as they can be read. -/
structure Draft.IsRead (d : Draft) : Prop where
  mtime : ∀ n ∈ d.mtime.join, -(Text.maxSigned64 : Int) - 1 ≤ n ∧
    n ≤ Text.maxSigned64
  upload : ∀ v ∈ d.upload.join,
    v ≠ .null ∧ v.Canonical Number.Fits (maxDepth - 1)

theorem isRead_ofDraft
    {d : Draft} {m : Metadata} (hd : d.IsRead) (h : ofDraft d = .ok m) :
    m.IsRead := by
  obtain ⟨key, -, h⟩ := Success.of_bind h
  obtain ⟨type, -, h⟩ := Success.of_bind h
  obtain rfl := Except.ok.inj h
  exact ⟨hd.mtime, hd.upload⟩

theorem bounds_of_signedOfNumber
    {n : Number} {i : Int} (fits : n.Fits) (h : signedOfNumber n = .ok i) :
    -(Text.maxSigned64 : Int) - 1 ≤ i ∧ i ≤ Text.maxSigned64 := by
  cases n with
  | integer n =>
      rw [signedOfNumber] at h
      split at h
      · next high =>
          obtain rfl := Except.ok.inj h
          exact ⟨fits.1, high⟩
      · cases h
  | float x => cases h

theorem gives_signed (depth : Nat) :
    signed.Gives (Value.Canonical Number.Fits depth) fun n =>
      -(Text.maxSigned64 : Int) - 1 ≤ n ∧ n ≤ Text.maxSigned64 := by
  intro v hv n h
  cases hv with
  | number _ fits => exact bounds_of_signedOfNumber fits h
  | _ => cases h

theorem givesFrom_signed (depth : Nat) :
    signed.GivesFrom depth fun n =>
      -(Text.maxSigned64 : Int) - 1 ≤ n ∧ n ≤ Text.maxSigned64 := by
  intro ts n r h
  simp only [signed] at h
  split at h
  · obtain ⟨x, hx, h⟩ := Success.of_bind h
    obtain ⟨i, hi, h⟩ := Success.of_bind h
    cases h
    exact bounds_of_signedOfNumber (Number.fits_of_decodeNumber hx) hi
  · cases h

theorem ne_null_of_readValue
    {depth : Nat} {ts r : List Token} {v : Value}
    (present : ∀ r', ts ≠ .null :: r') (h : readValue depth ts = .ok (v, r)) :
    v ≠ .null := by
  rintro rfl
  unfold readValue at h
  split at h
  · next r' => exact present r' rfl
  · cases h
  · obtain ⟨n, -, h⟩ := Success.of_bind h
    cases h
  · obtain ⟨s, -, h⟩ := Success.of_bind h
    cases h
  · obtain ⟨⟨xs, r'⟩, -, h⟩ := Success.of_bind h
    cases h
  · obtain ⟨⟨ms, r'⟩, -, h⟩ := Success.of_bind h
    cases h
  · cases h

theorem isRead_draft_keptBy :
    Gives.KeptBy fields (Value.Canonical Number.Fits (maxDepth - 1))
      Draft.IsRead := by
  have unchanged : ∀ {α : Type} (c : Codec α) (f : α → Draft → Draft),
      (∀ x d, Draft.IsRead d → Draft.IsRead (f x d)) →
      (c.map f).Gives (Value.Canonical Number.Fits (maxDepth - 1))
        fun change => ∀ d, Draft.IsRead d → Draft.IsRead (change d) := by
    intro α c f keeps v _ change h d hd
    obtain ⟨x, -, rfl⟩ := Success.of_map h
    exact keeps x d hd
  simp only [Gives.KeptBy, fields, List.forall_mem_cons]
  refine ⟨?_, ?_, ?_, ?_, ?_, ?_, ?_, nofun⟩
  · exact unchanged _ _ fun _ _ hd => ⟨hd.mtime, hd.upload⟩
  · exact unchanged _ _ fun _ _ hd => ⟨hd.mtime, hd.upload⟩
  · exact unchanged _ _ fun _ _ hd => ⟨hd.mtime, hd.upload⟩
  · exact unchanged _ _ fun _ _ hd => ⟨hd.mtime, hd.upload⟩
  · exact unchanged _ _ fun _ _ hd => ⟨hd.mtime, hd.upload⟩
  · refine Gives.map ((gives_signed _).mono fun _ h => h.2).optional ?_
    exact fun o ho d hd => ⟨ho, hd.upload⟩
  · have present : Codec.value.Gives
        (fun v => v ≠ .null ∧ v.Canonical Number.Fits (maxDepth - 1))
        fun v => v ≠ .null ∧ v.Canonical Number.Fits (maxDepth - 1) := by
      intro v hv w hw
      obtain rfl := Except.ok.inj hw
      exact hv
    exact present.optional.map fun o ho d hd => ⟨hd.mtime, ho⟩

theorem isRead_draft_keptByTokens :
    GivesFrom.KeptBy fields (maxDepth - 1) Draft.IsRead := by
  have unchanged : ∀ {α : Type} (c : Codec α) (f : α → Draft → Draft),
      (∀ x d, Draft.IsRead d → Draft.IsRead (f x d)) →
      (c.map f).GivesFrom (maxDepth - 1)
        fun change => ∀ d, Draft.IsRead d → Draft.IsRead (change d) := by
    intro α c f keeps ts change r h d hd
    obtain ⟨⟨x, r'⟩, -, heq⟩ := Success.of_map h
    obtain ⟨rfl, rfl⟩ := Prod.mk.inj heq
    exact keeps x d hd
  simp only [GivesFrom.KeptBy, fields, List.forall_mem_cons]
  refine ⟨?_, ?_, ?_, ?_, ?_, ?_, ?_, nofun⟩
  · exact unchanged _ _ fun _ _ hd => ⟨hd.mtime, hd.upload⟩
  · exact unchanged _ _ fun _ _ hd => ⟨hd.mtime, hd.upload⟩
  · exact unchanged _ _ fun _ _ hd => ⟨hd.mtime, hd.upload⟩
  · exact unchanged _ _ fun _ _ hd => ⟨hd.mtime, hd.upload⟩
  · exact unchanged _ _ fun _ _ hd => ⟨hd.mtime, hd.upload⟩
  · refine (GivesFrom.optional ?_).map fun o ho d hd => ⟨ho, hd.upload⟩
    exact fun ts n r _ h => givesFrom_signed _ ts n r h
  · refine (GivesFrom.optional ?_).map fun o ho d hd => ⟨hd.mtime, ho⟩
    exact fun ts v r present h =>
      ⟨ne_null_of_readValue present h, canonical_of_readValue h⟩

theorem isRead_draft_empty : Draft.IsRead {} :=
  ⟨nofun, nofun⟩

theorem isRead_of_ofValue
    {v : Value} {m : Metadata} (hv : v.Canonical Number.Fits maxDepth)
    (h : codec.ofValue v = .ok m) : m.IsRead :=
  Gives.record (Value.partsOf_canonical Number.Fits (maxDepth - 1))
    isRead_draft_keptBy isRead_draft_empty (fun _ _ => isRead_ofDraft) v hv m h

theorem isRead_of_ofText
    {s : String} {m : Metadata} (h : codec.ofText s = .ok m) : m.IsRead := by
  obtain ⟨r, hr⟩ := of_readText h
  exact GivesFrom.record isRead_draft_keptByTokens isRead_draft_empty
    (fun _ _ => isRead_ofDraft) _ m r hr

/-- Metadata that has been read is read back, if the numbers of its upload are. -/
theorem IsRead.writable
    {m : Metadata} (h : m.IsRead) (numbers : ∀ v ∈ m.upload, v.Legible) :
    m.Writable Number.ReadsBack where
  mtime := h.mtime
  upload_ne_null v hv := (h.upload v hv).1
  upload v hv := by
    obtain ⟨depth, legible⟩ := numbers v hv
    exact (h.upload v hv).2.withNumbers legible

end Metadata

namespace Dump

theorem gives_entryCodec :
    entryCodec.Gives (Value.Canonical Number.Fits maxDepth) fun vs =>
      ∀ v ∈ vs, v.Canonical Number.Fits (maxDepth - 2) := by
  have item : Codec.value.Gives (Value.Canonical Number.Fits (maxDepth - 2))
      (Value.Canonical Number.Fits (maxDepth - 2)) := by
    intro v hv w hw
    obtain rfl := Except.ok.inj hw
    exact hv
  have kept : Gives.KeptBy
      [⟨"entry", (Codec.list Codec.value).map fun x _ => some x,
        Option.isSome, false⟩]
      (Value.Canonical Number.Fits (maxDepth - 1))
      fun d : Option (List Value) =>
        ∀ vs ∈ d, ∀ v ∈ vs, v.Canonical Number.Fits (maxDepth - 2) := by
    simp only [Gives.KeptBy, List.forall_mem_cons]
    refine ⟨?_, nofun⟩
    refine (item.list (Value.partsOf_canonical _ (maxDepth - 2))).map ?_
    rintro vs hvs d - ws ⟨⟩
    exact hvs
  refine Gives.record (Value.partsOf_canonical _ (maxDepth - 1)) kept nofun ?_
  intro d vs hd h
  exact hd vs (eq_some_of_required h)

theorem canonical_decodeItem
    {v w : Value} (hv : v.Canonical Number.Fits maxDepth)
    (h : decodeItem v = .ok w) : w.Canonical Number.Fits maxDepth := by
  unfold decodeItem at h
  split at h
  · split at h
    · obtain rfl := Except.ok.inj h
      exact .null _
    · split at h
      · exact canonical_of_parse (Success.of_mapError h)
      · obtain rfl := Except.ok.inj h
        exact .string _ _
  · obtain rfl := Except.ok.inj h
    exact hv

theorem canonical_decodeItems
    {row row' : Row} {items : List (String × Value)}
    (hrow : Members.Canonical Number.Fits maxDepth row)
    (hitems : ∀ i ∈ items, i.2.Canonical Number.Fits maxDepth)
    (h : decodeItems row items = .ok row') :
    Members.Canonical Number.Fits maxDepth row' := by
  induction items generalizing row with
  | nil =>
      obtain rfl := Except.ok.inj h
      exact hrow
  | cons i items ih =>
      obtain ⟨column, item⟩ := i
      obtain ⟨hi, hitems⟩ := List.forall_mem_cons.1 hitems
      obtain ⟨v, hv, h⟩ := Success.of_bind h
      exact ih (hrow.setMember column (canonical_decodeItem hi hv)) hitems h

theorem canonical_row
    {s : Schema} {values : List Value} {row : Row}
    (hvalues : ∀ v ∈ values, v.Canonical Number.Fits maxDepth)
    (h : s.row values = .ok row) :
    Members.Canonical Number.Fits maxDepth row := by
  rw [Schema.row] at h
  split at h
  · obtain ⟨r, hr, h⟩ := Success.of_bind h
    obtain rfl := Except.ok.inj h
    have items : ∀ i ∈ s.columns.zip values,
        i.2.Canonical Number.Fits maxDepth := by
      rintro ⟨column, v⟩ hi
      exact hvalues v (List.of_mem_zip hi).2
    have empty : Members.Canonical Number.Fits maxDepth [] :=
      ⟨List.Pairwise.nil, nofun⟩
    exact (canonical_decodeItems empty items hr).setMember _ (.string _ _)
  · cases h

theorem canonical_of_ofValue
    {schema : Option Schema} {v : Value} {row : Row}
    (hv : v.Canonical Number.Fits maxDepth)
    (h : Line.ofValue schema v = .ok (.row row)) :
    Members.Canonical Number.Fits maxDepth row := by
  unfold Line.ofValue at h
  split at h
  · split at h <;> cases h
  · split at h
    · cases h
    · split at h
      · cases h
      · next values hvalues =>
          obtain ⟨r, hr, heq⟩ := Success.of_map h
          obtain rfl := Line.row.inj heq
          refine canonical_row ?_ hr
          intro w hw
          exact (gives_entryCodec v hv values hvalues w hw).deeper (by decide)

/-- The members of a decoded row are in order and nest no deeper than the bound. -/
theorem canonical_of_decodeLine
    {d : Decoder} {line : String} {row : Row}
    (h : (d.decodeLine line).2 = .ok (some row)) :
    Members.Canonical Number.Fits maxDepth row := by
  simp only [Decoder.decodeLine] at h
  split at h
  · cases h
  · cases h
  · next r hr =>
      cases h
      simp only [Line.parse] at hr
      split at hr
      · cases hr
      · split at hr
        · cases hr
        · next v hv => exact canonical_of_ofValue (canonical_of_parse hv) hr
  · cases h

namespace Row

/-- The metadata of a row whose members nest no deeper than the bound is as it can be read. -/
theorem isRead_of_metadata
    {row : Row} {m : Metadata}
    (hrow : Members.Canonical Number.Fits maxDepth row)
    (h : row.metadata = .ok m) : m.IsRead := by
  rw [metadata] at h
  split at h
  · next v hv =>
      have read := Success.of_mapError h
      cases v with
      | string s => exact Metadata.isRead_of_ofText read
      | _ =>
          exact Metadata.isRead_of_ofValue (hrow.2 _ (mem_of_getMember? hv))
            read
  · cases h

end Row
end Dump
end Reclaim
