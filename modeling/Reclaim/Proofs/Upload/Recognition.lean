import Reclaim.Proofs.Upload.Trees
import Reclaim.Proofs.Uuid

/-!
# Which keys are uploads

A key is recognised by its segments between slashes: an owner, the word
`uploads`, a group, an id and perhaps the number of a part.  The same keys match
the pattern `/owner/uploads/group/id` with an optional tail `/number`.  A row of
metadata gives a live record exactly if its key has this shape, the id is a
hyphenated uuid, and what the metadata describes fits the shape; it is refused
exactly if the shape is there and the id is no uuid.

Main results: `Path.names_iff_matches` and `uploads_recognised`.
-/

namespace Reclaim

/-! ## Members of metadata -/

namespace Metadata

open Json Json.Codec

/-- The field of the key. -/
def keyField : Json.Field Draft :=
  ⟨"key", Codec.text.map fun x d => { d with key := some x }, (·.key.isSome), false⟩

/-- The field of the type. -/
def typeField : Json.Field Draft :=
  ⟨"type", Codec.text.map fun x d => { d with type := some x }, (·.type.isSome), false⟩

/-- The field of the upload. -/
def uploadField : Json.Field Draft :=
  ⟨"upload", (Codec.optional Codec.value).map fun x d => { d with upload := some x },
    (·.upload.isSome), true⟩

theorem string_of_text {v : Value} {s : String} (h : Codec.text.ofValue v = .ok s) :
    v = .string s := by
  cases v with
  | string t => rw [Except.ok.inj h]
  | _ => cases h

theorem setBy_key :
    SetBy fields keyField Draft.key fun v key => ∃ s, v = .string s ∧ key = some s where
  find := rfl
  sets v change h d := by
    obtain ⟨s, hs, rfl⟩ := Success.of_map h
    exact ⟨s, string_of_text hs, rfl⟩
  keeps := by
    simp only [fields, List.forall_mem_cons]
    refine ⟨fun hne => absurd rfl hne, ?_, ?_, ?_, ?_, ?_, ?_, List.forall_mem_nil _⟩
    all_goals exact fun _ => keeps_of_map fun _ _ => rfl

theorem setBy_type :
    SetBy fields typeField Draft.type fun v type => ∃ s, v = .string s ∧ type = some s where
  find := rfl
  sets v change h d := by
    obtain ⟨s, hs, rfl⟩ := Success.of_map h
    exact ⟨s, string_of_text hs, rfl⟩
  keeps := by
    simp only [fields, List.forall_mem_cons]
    refine ⟨?_, fun hne => absurd rfl hne, ?_, ?_, ?_, ?_, ?_, List.forall_mem_nil _⟩
    all_goals exact fun _ => keeps_of_map fun _ _ => rfl

theorem setBy_upload :
    SetBy fields uploadField Draft.upload fun v upload =>
      ∃ u, upload = some u ∧ (u.isSome ↔ v ≠ .null) where
  find := rfl
  sets v change h d := by
    obtain ⟨u, hu, rfl⟩ := Success.of_map h
    refine ⟨u, rfl, ?_⟩
    cases v with
    | null =>
        obtain rfl := Except.ok.inj hu
        simp
    | _ =>
        obtain rfl := Except.ok.inj hu
        simp
  keeps := by
    simp only [fields, List.forall_mem_cons]
    refine ⟨?_, ?_, ?_, ?_, ?_, ?_, fun hne => absurd rfl hne, List.forall_mem_nil _⟩
    all_goals exact fun _ => keeps_of_map fun _ _ => rfl

/-- What metadata that is an object says of the path and of what lies there. -/
structure Describes (ms : Members) (m : Metadata) : Prop where
  key : getMember? "key" ms = some (.string m.key)
  type : getMember? "type" ms = some (.string m.type)
  upload : m.upload.isSome ↔ ∃ v, getMember? "upload" ms = some v ∧ v ≠ .null

theorem describes_of_ofValue {ms : Members} {m : Metadata} (names : (ms.map Prod.fst).Nodup)
    (h : ofValue (.object ms) = .ok m) : Describes ms m := by
  obtain ⟨d, hd, h⟩ := Success.of_bind (Success.of_mapError h)
  obtain ⟨key, hkey, h⟩ := Success.of_bind h
  obtain ⟨type, htype, h⟩ := Success.of_bind h
  obtain rfl := Except.ok.inj h
  have keySet := setBy_key.of_members names hd
  have typeSet := setBy_type.of_members names hd
  have uploadSet := setBy_upload.of_members names hd
  rw [eq_some_of_required hkey] at keySet
  rw [eq_some_of_required htype] at typeSet
  refine ⟨?_, ?_, ?_⟩
  · cases hmember : getMember? "key" ms with
    | none => cases keySet.2 hmember
    | some v =>
        obtain ⟨s, rfl, hs⟩ := keySet.1 v hmember
        rw [Option.some.inj hs]
  · cases hmember : getMember? "type" ms with
    | none => cases typeSet.2 hmember
    | some v =>
        obtain ⟨s, rfl, hs⟩ := typeSet.1 v hmember
        rw [Option.some.inj hs]
  · cases hmember : getMember? "upload" ms with
    | none => simp [uploadSet.2 hmember]
    | some v =>
        obtain ⟨u, hu, hnull⟩ := uploadSet.1 v hmember
        simp [hu, hnull]

end Metadata

namespace Upload

/-! ## Shapes of keys -/

namespace Path

/-- Hexadecimal digits and hyphens, as many as a hyphenated uuid has. -/
def IsIdText (s : String) : Prop :=
  s.toList.length = 36 ∧ ∀ c ∈ s.toList, Uuid.IsFormChar c

instance (s : String) : Decidable (IsIdText s) :=
  have : Decidable (∀ c ∈ s.toList, Uuid.IsFormChar c) := List.decidableBAll _ _
  instDecidableAnd

/-- One or more decimal digits of any script. -/
def IsNumberText (s : String) : Prop :=
  s ≠ "" ∧ ∀ c ∈ s.toList, Text.isDecimalDigit c = true

/--
The segments of the key between slashes are those of an upload with this id, or
of this part of it.
-/
def Names (key id : String) (part : Option String) : Prop :=
  ∃ owner group, Text.fields '/' key = ["", owner, "uploads", group, id] ++ part.toList ∧
    IsIdText owner ∧ group ≠ "" ∧ IsIdText id ∧ ∀ number ∈ part, IsNumberText number

/-- The text behind the id: nothing, or a slash and the number of a part. -/
def tail (part : Option String) : List Char :=
  match part with
  | some number => '/' :: number.toList
  | none => []

/-- The key matches the pattern of paths of uploads with this id, or with this part of it. -/
def Matches (key id : String) (part : Option String) : Prop :=
  ∃ owner group, key.toList = '/' :: owner.toList ++ "/uploads/".toList ++ group.toList ++
      '/' :: id.toList ++ tail part ∧
    IsIdText owner ∧ group ≠ "" ∧ '/' ∉ group.toList ∧ IsIdText id ∧
      ∀ number ∈ part, IsNumberText number

theorem isIdLike_iff {s : List Char} :
    isIdLike s = true ↔ s.length = 36 ∧ ∀ c ∈ s, Uuid.IsFormChar c := by
  simp [isIdLike, Uuid.IsFormChar]

theorem isPartNumber_iff {s : List Char} :
    isPartNumber s = true ↔ IsNumberText (String.ofList s) := by
  have hempty : String.ofList s = "" ↔ s = [] := by
    rw [← String.toList_inj, String.toList_ofList]
    rfl
  simp [isPartNumber, IsNumberText, hempty]

theorem slash_not_mem_idText {s : String} (h : IsIdText s) : '/' ∉ s.toList :=
  fun hm => absurd (h.2 _ hm) (by decide)

theorem slash_not_mem_numberText {s : String} (h : IsNumberText s) : '/' ∉ s.toList :=
  fun hm => absurd (h.2 _ hm) (by decide)

variable {key id : String} {part : Option String}

/-- A key names an upload or a part exactly if it is read as the path of it. -/
theorem names_iff : Names key id part ↔
    ∃ p, parse? key = some p ∧ String.ofList p.upload = id ∧
      p.part.map String.ofList = part := by
  constructor
  · rintro ⟨owner, group, hfields, howner, hgroup, hid, hpart⟩
    refine ⟨⟨owner.toList, group.toList, id.toList, part.map String.toList⟩, ?_, ?_, ?_⟩
    · rw [parse?_eq_some_iff]
      refine ⟨?_, isIdLike_iff.2 howner, ?_, isIdLike_iff.2 hid, ?_⟩
      · have hpieces := congrArg (List.map String.toList) hfields
        rw [Text.fields, List.map_map] at hpieces
        simp only [Function.comp_def, String.toList_ofList, List.map_id'] at hpieces
        rw [hpieces]
        cases part <;> rfl
      · rw [ne_eq, ← String.toList_inj] at hgroup
        exact hgroup
      · intro digits hdigits
        obtain ⟨number, hnumber, rfl⟩ := Option.map_eq_some_iff.1 hdigits
        rw [isPartNumber_iff, String.ofList_toList]
        exact hpart number hnumber
    · exact String.ofList_toList
    · simp [Option.map_map, Function.comp_def]
  · rintro ⟨p, hp, rfl, rfl⟩
    obtain ⟨hpieces, hwell⟩ := parse?_eq_some_iff.1 hp
    refine ⟨String.ofList p.owner, String.ofList p.group, ?_, ?_, ?_, ?_, ?_⟩
    · have huploads : String.ofList uploadsSegment = "uploads" := String.ofList_toList
      rw [Text.fields, hpieces]
      cases hpart : p.part <;> simp [steps, huploads, hpart]
    · rw [IsIdText, String.toList_ofList]
      exact isIdLike_iff.1 hwell.owner
    · rw [ne_eq, ← String.toList_inj, String.toList_ofList]
      exact hwell.group
    · rw [IsIdText, String.toList_ofList]
      exact isIdLike_iff.1 hwell.upload
    · intro number hnumber
      obtain ⟨digits, hdigits, rfl⟩ := Option.map_eq_some_iff.1 hnumber
      exact isPartNumber_iff.1 (hwell.part digits hdigits)

/-- The segments of a key have the shape exactly if the key matches the pattern. -/
theorem names_iff_matches : Names key id part ↔ Matches key id part := by
  have joined : ∀ owner group, (Text.join '/' (["", owner, "uploads", group, id] ++
      part.toList)).toList = '/' :: owner.toList ++ "/uploads/".toList ++ group.toList ++
        '/' :: id.toList ++ tail part := by
    intro owner group
    cases part <;> simp [Text.join, List.intercalate, List.intersperse, tail]
  constructor
  · rintro ⟨owner, group, hfields, howner, hgroup, hid, hpart⟩
    refine ⟨owner, group, ?_, howner, hgroup, ?_, hid, hpart⟩
    · rw [← joined, ← hfields, Text.join_fields]
    · have hmem : group ∈ Text.fields '/' key := by
        rw [hfields]
        simp
      obtain ⟨piece, hpiece, rfl⟩ := List.mem_map.1 hmem
      rw [String.toList_ofList]
      exact Text.not_mem_of_mem_pieces hpiece
  · rintro ⟨owner, group, hkey, howner, hgroup, hslash, hid, hpart⟩
    refine ⟨owner, group, ?_, howner, hgroup, hid, hpart⟩
    rw [← joined, String.toList_inj] at hkey
    rw [hkey]
    refine Text.fields_join '/' _ (by simp) ?_
    simp only [List.cons_append, List.nil_append, List.forall_mem_cons, Option.mem_toList]
    exact ⟨by simp, slash_not_mem_idText howner, by decide, hslash, slash_not_mem_idText hid,
      fun number hnumber => slash_not_mem_numberText (hpart number hnumber)⟩

/-- A path names one upload or part only. -/
theorem names_iff_of_parse? {p : Path} (h : parse? key = some p) :
    Names key id part ↔ String.ofList p.upload = id ∧ p.part.map String.ofList = part := by
  rw [names_iff]
  refine ⟨?_, fun hnames => ⟨p, h, hnames⟩⟩
  rintro ⟨q, hq, hnames⟩
  obtain rfl := Option.some.inj (h.symm.trans hq)
  exact hnames

section Named

variable {p : Path} {P : String → Prop}

/-- What is said of the id of a path that is read. -/
theorem exists_names_iff (h : parse? key = some p) :
    (∃ id part, Names key id part ∧ P id) ↔ P (String.ofList p.upload) := by
  constructor
  · rintro ⟨id, part, hnames, hid⟩
    obtain ⟨rfl, -⟩ := (names_iff_of_parse? h).1 hnames
    exact hid
  · exact fun hid => ⟨_, _, (names_iff_of_parse? h).2 ⟨rfl, rfl⟩, hid⟩

theorem exists_names_part_iff (h : parse? key = some p) :
    (∃ id number, Names key id (some number) ∧ P id) ↔
      p.part.isSome ∧ P (String.ofList p.upload) := by
  constructor
  · rintro ⟨id, number, hnames, hid⟩
    obtain ⟨rfl, hnumber⟩ := (names_iff_of_parse? h).1 hnames
    obtain ⟨digits, hdigits, -⟩ := Option.map_eq_some_iff.1 hnumber
    exact ⟨Option.isSome_of_eq_some hdigits, hid⟩
  · rintro ⟨hpart, hid⟩
    obtain ⟨digits, hdigits⟩ := Option.isSome_iff_exists.1 hpart
    have hnames : Names key (String.ofList p.upload) (some (String.ofList digits)) :=
      (names_iff_of_parse? h).2 ⟨rfl, by rw [hdigits]; rfl⟩
    exact ⟨_, _, hnames, hid⟩

theorem exists_names_whole_iff (h : parse? key = some p) :
    (∃ id, Names key id none ∧ P id) ↔ p.part = none ∧ P (String.ofList p.upload) := by
  constructor
  · rintro ⟨id, hnames, hid⟩
    obtain ⟨rfl, hpart⟩ := (names_iff_of_parse? h).1 hnames
    exact ⟨Option.map_eq_none_iff.1 hpart, hid⟩
  · rintro ⟨hpart, hid⟩
    exact ⟨_, (names_iff_of_parse? h).2 ⟨rfl, by rw [hpart]; rfl⟩, hid⟩

end Named

theorem not_names_of_parse? (h : parse? key = none) : ¬ Names key id part := by
  rw [names_iff, h]
  rintro ⟨p, hp, -⟩
  cases hp

/-- The id in a path is read as a uuid in the hyphenated form only. -/
theorem uuid_of_parse? {p : Path} (h : parse? key = some p) (u : Uuid) :
    Uuid.parse? (String.ofList p.upload) = some u ↔
      Uuid.IsTextOf (String.ofList p.upload) u := by
  obtain ⟨hlength, hchars⟩ := isIdLike_iff.1 (parse?_eq_some_iff.1 h).2.upload
  rw [← String.toList_ofList (l := p.upload)] at hlength hchars
  exact Uuid.parse?_eq_some_iff_isTextOf hlength hchars

end Path

/-! ## Records of rows -/

namespace Record

variable {origin : Dump.Origin} {row : Dump.Row} {m : Metadata} {date : Time.Instant}
variable {path : Path} {u : Uuid}

theorem kindAt?_eq_part_iff : kindAt? path m = some .part ↔
    path.part.isSome ∧ m.type = "object" := by
  unfold kindAt?
  cases path.part <;> simp [Metadata.isObject]

theorem kindAt?_eq_directory_iff : kindAt? path m = some .directory ↔
    path.part = none ∧ m.type = "directory" ∧ m.upload.isSome := by
  unfold kindAt?
  cases path.part <;> simp [Metadata.isDirectory, Option.ne_none_iff_isSome]

/-- A record of one kind is made exactly if that is the kind of what lies at the path. -/
theorem ok_live_iff {key : String} {kind : LiveKind} {v : Uuid} :
    (Except.ok ((kindAt? path m).toList.map fun k => live ⟨u, key, date, k⟩) :
        Except Defect (List Record)) = .ok [.live ⟨v, key, date, kind⟩] ↔
      kindAt? path m = some kind ∧ u = v := by
  cases kindAt? path m with
  | none => simp
  | some k => simp [and_comm]

/-- What is made of a row of metadata at a time is told from the key. -/
theorem ofDump_cases (origin : Dump.Origin) (htable : row.table? = some Dump.metadataTable)
    (hmetadata : row.metadata = .ok m) (hdate : row.date = .ok date) :
    (Path.parse? m.key = none ∧ ofDump origin row = .ok []) ∨
      ∃ path, Path.parse? m.key = some path ∧
        ((Uuid.parse? (String.ofList path.upload) = none ∧
            ofDump origin row = .error (.invalidUploadPath m.key)) ∨
          ∃ u, Uuid.parse? (String.ofList path.upload) = some u ∧
            ofDump origin row =
              .ok ((kindAt? path m).toList.map fun kind => .live ⟨u, m.key, date, kind⟩)) := by
  have hlive : ofDump origin row = liveOfDump row := by rw [ofDump, if_pos htable]
  rw [hlive, liveOfDump, hmetadata]
  cases hpath : Path.parse? m.key with
  | none => exact .inl ⟨rfl, by simp only [Bind.bind, Except.bind, hpath]⟩
  | some path =>
      refine .inr ⟨path, rfl, ?_⟩
      cases hupload : Uuid.parse? (String.ofList path.upload) with
      | none => exact .inl ⟨rfl, by simp only [Bind.bind, Except.bind, hpath, hupload]⟩
      | some u =>
          refine .inr ⟨u, rfl, ?_⟩
          simp only [Bind.bind, Except.bind, hpath, hupload, hdate]
          cases kindAt? path m <;> rfl

end Record

/--
What a row of metadata is recognised as: a part, the directory of an upload, a
path that has the shape of one with an id that is no uuid, or nothing.  Metadata
that is given as an object says itself what lies at the key.
-/
structure Recognised (row : Dump.Row) (m : Metadata) (date : Time.Instant)
    (answer : Except Defect (List Record)) : Prop where
  part : ∀ u, answer = .ok [.live ⟨u, m.key, date, .part⟩] ↔
    ∃ id number, Path.Names m.key id (some number) ∧ Uuid.IsTextOf id u ∧ m.type = "object"
  directory : ∀ u, answer = .ok [.live ⟨u, m.key, date, .directory⟩] ↔
    ∃ id, Path.Names m.key id none ∧ Uuid.IsTextOf id u ∧ m.type = "directory" ∧
      m.upload.isSome
  refused : ∀ d, answer = .error d ↔ d = .invalidUploadPath m.key ∧
    ∃ id part, Path.Names m.key id part ∧ ∀ u, ¬ Uuid.IsTextOf id u
  otherwise : answer = .ok [] ∨ (∃ d, answer = .error d) ∨
    ∃ u kind, answer = .ok [.live ⟨u, m.key, date, kind⟩]
  matched : ∀ id part, Path.Names m.key id part ↔ Path.Matches m.key id part
  described : ∀ ms, Json.getMember? "_value" row = some (.object ms) →
    (ms.map Prod.fst).Nodup → Metadata.Describes ms m

section Recognition

variable {row : Dump.Row} {m : Metadata} {date : Time.Instant}

theorem describes_of_metadata (hmetadata : row.metadata = .ok m) {ms : Json.Members}
    (hvalue : Json.getMember? "_value" row = some (.object ms))
    (names : (ms.map Prod.fst).Nodup) : Metadata.Describes ms m := by
  rw [Dump.Row.metadata, hvalue] at hmetadata
  exact Metadata.describes_of_ofValue names hmetadata

/-- A row of metadata that has a date is recognised by the shape of its key. -/
theorem uploads_recognised (origin : Dump.Origin)
    (htable : row.table? = some Dump.metadataTable)
    (hmetadata : row.metadata = .ok m) (hdate : row.date = .ok date) :
    Recognised row m date (Record.ofDump origin row) := by
  have described := fun ms => @describes_of_metadata row m hmetadata ms
  have matched := fun id part => @Path.names_iff_matches m.key id part
  rcases Record.ofDump_cases origin htable hmetadata hdate with
    ⟨hpath, hanswer⟩ | ⟨path, hpath, ⟨hupload, hanswer⟩ | ⟨u, hupload, hanswer⟩⟩
  · rw [hanswer]
    refine ⟨?_, ?_, ?_, .inl rfl, matched, described⟩
    all_goals simp [Path.not_names_of_parse? hpath]
  · have hno : ∀ v, ¬ Uuid.IsTextOf (String.ofList path.upload) v := by
      intro v hv
      rw [← Path.uuid_of_parse? hpath, hupload] at hv
      cases hv
    rw [hanswer]
    refine ⟨?_, ?_, ?_, .inr (.inl ⟨_, rfl⟩), matched, described⟩
    · intro v
      rw [Path.exists_names_part_iff hpath]
      simp [hno]
    · intro v
      rw [Path.exists_names_whole_iff hpath]
      simp [hno]
    · intro d
      rw [Path.exists_names_iff hpath]
      simp [hno, eq_comm]
  · have hid : ∀ v, u = v ↔ Uuid.IsTextOf (String.ofList path.upload) v := by
      intro v
      rw [← Path.uuid_of_parse? hpath, hupload, Option.some_inj]
    rw [hanswer]
    refine ⟨?_, ?_, ?_, ?_, matched, described⟩
    · intro v
      rw [Record.ok_live_iff, Record.kindAt?_eq_part_iff, Path.exists_names_part_iff hpath, hid]
      tauto
    · intro v
      rw [Record.ok_live_iff, Record.kindAt?_eq_directory_iff,
        Path.exists_names_whole_iff hpath, hid]
      tauto
    · intro d
      rw [Path.exists_names_iff hpath]
      exact ⟨nofun, fun h => absurd ((hid u).1 rfl) (h.2 u)⟩
    · cases Record.kindAt? path m with
      | none => exact .inl rfl
      | some kind => exact .inr (.inr ⟨u, kind, rfl⟩)

/-- The id of an upload, written in upper case. -/
def capitalId : String :=
  "AAAAAAAA-AAAA-AAAA-AAAA-AAAAAAAAAAAA"

/-- The row of the directory of the upload. -/
def directoryRow : Dump.Row :=
  [("__table", .string "manta"), ("_mtime", .string "1000"),
    ("_value", .object [("key", .string (sampleKey ("uploads/1/" ++ capitalId))),
      ("type", .string "directory"), ("upload", .object [])])]

/-- The sample row is that of a directory, although its id is not in lower case. -/
theorem uploads_recognised_sample :
    directoryRow.table? = some Dump.metadataTable ∧
      directoryRow.date = .ok (.wholeSecond 1) ∧
      ∃ m, directoryRow.metadata = .ok m ∧ ∃ u, u.digits = List.replicate 32 10 ∧
        Record.ofDump ⟨"s1", none⟩ directoryRow =
          .ok [.live ⟨u, m.key, .wholeSecond 1, .directory⟩] := by
  have htable : directoryRow.table? = some Dump.metadataTable := by decide
  have hdate : directoryRow.date = .ok (.wholeSecond 1) := by decide +kernel
  refine ⟨htable, hdate, _, rfl, ⟨List.replicate 32 10, List.length_replicate⟩, rfl, ?_⟩
  refine ((uploads_recognised ⟨"s1", none⟩ htable rfl hdate).directory _).2
    ⟨capitalId, ⟨"11111111-1111-1111-1111-111111111111", "1", ?_⟩, ?_⟩
  · refine ⟨?_, ?_, ?_, ?_, nofun⟩
    all_goals decide +kernel
  · exact ⟨by unfold Uuid.IsTextOf; decide +kernel, rfl, rfl⟩

end Recognition

end Upload
end Reclaim
