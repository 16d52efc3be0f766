import Reclaim.Dump.Decoder
import Reclaim.Proofs.Json.Written

/-!
# Dumps are read back

A dump writes a header and then one entry for each row, in which a null stands as
`\N` and an object as its text.  The decoder undoes this for all strings and all
nestings within the limit, except that it takes `\N` and strings that start like
an object for what they would stand for.

Main results: `decodeItem_encodeItem_iff` tells which values are read back, and
`decodeLines_dump` says that a header with its entries is.
-/

namespace Reclaim
namespace Dump

open Json

/-! ## One value -/

/-- How an entry writes a value. -/
def encodeItem : Value → Value
  | .null => .string nullText
  | .object ms => .string (Value.object ms).text
  | v => v

/--
How deep a value may nest.  An object is a text of its own, and all else stands two
levels deep in the entry.
-/
def depthWithin : Value → Nat
  | .object _ => maxDepth
  | _ => maxDepth - 2

/--
A value whose numbers are integers of 64 bits, whose nesting is within the limit and
that is not taken for another one.
-/
structure Encodable (v : Value) : Prop where
  plain : ∀ s, v = .string s → s ≠ nullText ∧ s.toList.head? ≠ some '\x7b'
  canonical : v.Canonical Number.IsInteger64 (depthWithin v)

theorem head?_text_object (ms : Members) :
    (Value.object ms).text.toList.head? = some '\x7b' := by
  rw [Value.text, String.toList_ofList]
  rfl

/-- Decoding undoes the encoding of a value. -/
theorem decodeItem_encodeItem {v : Value} (h : Encodable v) :
    decodeItem (encodeItem v) = .ok v := by
  cases v with
  | null => rfl
  | bool b => rfl
  | number n => rfl
  | array xs => rfl
  | string s =>
      obtain ⟨hnull, hobject⟩ := h.plain s rfl
      rw [encodeItem, decodeItem, if_neg hnull, if_neg hobject]
      · nofun
      · nofun
  | object ms =>
      have hhead := head?_text_object ms
      have hnull : (Value.object ms).text ≠ nullText := by
        intro heq
        rw [heq] at hhead
        revert hhead
        decide
      have hparse := parse_text (h.canonical.mono fun _ => Number.IsInteger64.readsBack)
      rw [encodeItem, decodeItem, if_neg hnull, if_pos hhead, hparse]
      rfl

/-- What is read from a text that starts like an object is an object. -/
theorem parse_ne_string {s t : String} (hhead : s.toList.head? = some '\x7b') :
    parse s ≠ .ok (.string t) := by
  intro hparse
  obtain ⟨r, hr⟩ := List.head?_eq_some_iff.1 hhead
  have hread := readText_eq_ok_iff.1 hparse
  rw [hr, scan_openObject, show maxDepth = (maxDepth - 1) + 1 from rfl,
    readValue_openObject] at hread
  obtain ⟨p, -, heq⟩ := Success.of_map hread
  cases heq

/-- Only strings that are taken for a null or an object are not read back. -/
theorem decodeItem_encodeItem_iff {v : Value}
    (h : v.Canonical Number.IsInteger64 (depthWithin v)) :
    decodeItem (encodeItem v) = .ok v ↔
      ∀ s, v = .string s → s ≠ nullText ∧ s.toList.head? ≠ some '\x7b' := by
  refine ⟨?_, fun hplain => decodeItem_encodeItem ⟨hplain, h⟩⟩
  rintro hdecode s rfl
  rw [encodeItem, decodeItem] at hdecode
  · split at hdecode
    · cases hdecode
    · next hnull =>
        refine ⟨hnull, fun hhead => ?_⟩
        rw [if_pos hhead] at hdecode
        exact parse_ne_string hhead (Success.of_mapError hdecode)
  · nofun
  · nofun

theorem canonical_encodeItem {v : Value} (h : Encodable v) :
    (encodeItem v).Canonical Number.IsInteger64 (maxDepth - 2) := by
  cases v with
  | null => exact .string _ _
  | object ms => exact .string _ _
  | _ => exact h.canonical

/-! ## Rows -/

/-- The row of a table that has these values in its columns. -/
def rowOf (table : String) (columns : List String) (values : List Value) : Row :=
  inOrder (columns.zip values ++ [(Row.tableMember, .string table)])

theorem decodeItems_eq {members : Members} (row : Row)
    (h : ∀ m ∈ members, Encodable m.2) :
    decodeItems row (members.map (Prod.map id encodeItem)) =
      .ok (members.foldl (fun ms m => setMember m.1 m.2 ms) row) := by
  induction members generalizing row with
  | nil => rfl
  | cons m ms ih =>
      obtain ⟨column, v⟩ := m
      obtain ⟨hv, hms⟩ := List.forall_mem_cons.1 h
      change decodeItems row ((column, encodeItem v) :: _) = _
      rw [decodeItems, decodeItem_encodeItem hv]
      exact ih _ hms

variable {table : String} {columns : List String} {values : List Value}

/-- The values of an entry are decoded to its row. -/
theorem row_encoded (hlength : values.length = columns.length)
    (h : ∀ v ∈ values, Encodable v) :
    Schema.row ⟨table, columns⟩ (values.map encodeItem) = .ok (rowOf table columns values) := by
  have hzip : columns.zip (values.map encodeItem) =
      (columns.zip values).map (Prod.map id encodeItem) := by
    rw [List.zip_map_right]
  have hmembers : ∀ m ∈ columns.zip values, Encodable m.2 :=
    fun m hm => h m.2 (List.of_mem_zip hm).2
  rw [Schema.row, if_pos (by simpa using hlength), hzip, decodeItems_eq [] hmembers, rowOf,
    inOrder_concat]
  rfl

/-- The row has each value under its column and the table, and nothing else. -/
theorem rowOf_perm (hlength : values.length = columns.length) (hcolumns : columns.Nodup)
    (htable : Row.tableMember ∉ columns) :
    (rowOf table columns values).Perm
      ((Row.tableMember, .string table) :: columns.zip values) := by
  have hlast := List.perm_append_singleton (Row.tableMember, Value.string table)
    (columns.zip values)
  refine (inOrder_perm ?_).trans hlast
  rw [(hlast.map Prod.fst).nodup_iff, List.map_cons, List.map_fst_zip hlength.ge]
  exact List.nodup_cons.2 ⟨htable, hcolumns⟩

/-! ## Lines -/

theorem exists_printFurtherMembers (ms : Members) :
    ∃ p, printFurtherMembers ms = p ++ ['\x7d'] := by
  induction ms with
  | nil => exact ⟨[], rfl⟩
  | cons m ms ih =>
      obtain ⟨p, hp⟩ := ih
      obtain ⟨n, v⟩ := m
      refine ⟨',' :: (printString n ++ ':' :: (printValue v ++ p)), ?_⟩
      simp [printFurtherMembers, hp]

theorem exists_printMembers (ms : Members) :
    ∃ p, printMembers ms = p ++ ['\x7d'] := by
  cases ms with
  | nil => exact ⟨[], rfl⟩
  | cons m ms =>
      obtain ⟨p, hp⟩ := exists_printFurtherMembers ms
      obtain ⟨n, v⟩ := m
      refine ⟨printString n ++ ':' :: (printValue v ++ p), ?_⟩
      simp [printMembers, hp]

/-- A printed object has no blanks at its ends. -/
theorem trim_text_object (ms : Members) :
    Text.trim (Value.object ms).text = (Value.object ms).text := by
  obtain ⟨p, hp⟩ := exists_printMembers ms
  have hprint : printValue (.object ms) = '\x7b' :: (p ++ ['\x7d']) := by
    rw [printValue, hp]
  rw [Text.trim, Value.text, String.toList_ofList, hprint, Text.trimBlanks_eq_self]
  · simp only [List.head?_cons, Option.mem_some_iff]
    rintro c rfl
    decide
  · rw [← List.cons_append, List.getLast?_append]
    simp only [List.getLast?_singleton, Option.some_or, Option.mem_some_iff]
    rintro c rfl
    decide

/-- A line with a printed object writes what the object stands for. -/
theorem parse_line_object (schema : Option Schema) {ms : Members}
    (h : ∀ m ∈ ms, m.2.Canonical Number.IsInteger64 (maxDepth - 1)) :
    Line.parse schema (Value.object ms).text =
      Line.ofValue schema (.object (inOrder ms)) := by
  have hnonempty : (Value.object ms).text.isEmpty = false := by
    rw [Bool.eq_false_iff, ne_eq, String.isEmpty_iff]
    intro heq
    have hhead := head?_text_object ms
    rw [heq] at hhead
    cases hhead
  have hparse := parse_text_object fun m hm =>
    (h m hm).mono fun _ => Number.IsInteger64.readsBack
  simp only [Line.parse, trim_text_object, hnonempty, Bool.false_eq_true, if_false, hparse]

theorem mapM_text (columns : List String) :
    (columns.map Value.string).mapM Codec.text.ofValue = .ok columns := by
  rw [List.mapM_map]
  exact (List.mapM_pure (f := id)).trans (congrArg Except.ok (List.map_id columns))

theorem mapM_value (values : List Value) :
    values.mapM Codec.value.ofValue = .ok values :=
  (List.mapM_pure (f := id)).trans (congrArg Except.ok (List.map_id values))

/-- The members of a header. -/
def headerMembers (table : String) (columns : List String) : Members :=
  [("keys", .array (columns.map .string)), ("name", .string table)]

/-- The line with the values of an entry. -/
def entryLine (values : List Value) : String :=
  (Value.object [("entry", .array (values.map encodeItem))]).text

theorem canonical_headerMembers (table : String) (columns : List String) :
    ∀ m ∈ headerMembers table columns, m.2.Canonical Number.IsInteger64 (maxDepth - 1) := by
  simp only [headerMembers, List.forall_mem_cons]
  refine ⟨.array fun x hx => ?_, .string _ _, List.forall_mem_nil _⟩
  obtain ⟨column, -, rfl⟩ := List.mem_map.1 hx
  exact .string _ _

theorem ofValue_headerMembers (table : String) (columns : List String) :
    Schema.codec.ofValue (.object (headerMembers table columns)) = .ok ⟨table, columns⟩ := by
  have hkeys : (Codec.list Codec.text).ofValue (.array (columns.map .string)) = .ok columns :=
    mapM_text columns
  have hname : Codec.text.ofValue (.string table) = .ok table := rfl
  simp [Schema.codec, Codec.record, headerMembers, Schema.headerFields, Field.visitMember,
    Codec.map, hkeys, hname, Except.map, bind, Except.bind, pure, Except.pure,
    Schema.ofDraft, Codec.required]

/-- A header names the table and its columns, in either order of its members. -/
theorem parse_header (schema : Option Schema) {header : Members}
    (hheader : header.Perm (headerMembers table columns)) :
    Line.parse schema (Value.object header).text = .ok (.header ⟨table, columns⟩) := by
  have hcanonical : ∀ m ∈ header, m.2.Canonical Number.IsInteger64 (maxDepth - 1) :=
    fun m hm => canonical_headerMembers table columns m (hheader.mem_iff.1 hm)
  have hnames : ((headerMembers table columns).map Prod.fst).Nodup := by
    change ["keys", "name"].Nodup
    decide
  have horder : inOrder header = headerMembers table columns :=
    inOrder_eq_of_perm hheader hnames (by simp [headerMembers]; decide)
  have hisHeader : Line.isHeader (.object (headerMembers table columns)) = true := by
    simp [Line.isHeader, Value.get?, headerMembers, getMember?]
  rw [parse_line_object schema hcanonical, horder]
  simp only [Line.ofValue, hisHeader, if_true, ofValue_headerMembers]

theorem ofValue_entry (items : List Value) :
    entryCodec.ofValue (.object [("entry", .array items)]) = .ok items := by
  have hitems : (Codec.list Codec.value).ofValue (.array items) = .ok items :=
    mapM_value items
  simp [entryCodec, Codec.record, Field.visitMember, Codec.map, hitems, Except.map, bind,
    Except.bind, pure, Except.pure, Codec.required]

/-- An entry under a header is decoded to its row. -/
theorem parse_entry (table : String) (hlength : values.length = columns.length)
    (h : ∀ v ∈ values, Encodable v) :
    Line.parse (some ⟨table, columns⟩) (entryLine values) =
      .ok (.row (rowOf table columns values)) := by
  have hitems : ∀ x ∈ values.map encodeItem,
      x.Canonical Number.IsInteger64 (maxDepth - 2) := by
    intro x hx
    obtain ⟨v, hv, rfl⟩ := List.mem_map.1 hx
    exact canonical_encodeItem (h v hv)
  have hcanonical : ∀ m ∈ [("entry", Value.array (values.map encodeItem))],
      m.2.Canonical Number.IsInteger64 (maxDepth - 1) := by
    rw [List.forall_mem_singleton]
    exact .array hitems
  have hisHeader : Line.isHeader
      (.object [("entry", .array (values.map encodeItem))]) = false := by
    simp [Line.isHeader, Value.get?, getMember?]
  rw [entryLine, parse_line_object _ hcanonical]
  change Line.ofValue _ (.object [("entry", .array (values.map encodeItem))]) = _
  simp only [Line.ofValue, hisHeader, Bool.false_eq_true, if_false, ofValue_entry,
    row_encoded hlength h]
  rfl

/-! ## Dumps -/

/-- What a decoder makes of lines, one after the other. -/
def Decoder.decodeLines (d : Decoder) : List String → List (Except Fault (Option Row))
  | [] => []
  | line :: lines =>
      let (d, answer) := d.decodeLine line
      answer :: d.decodeLines lines

/-- Entries under a header are decoded to their rows. -/
theorem decodeLines_entries {d : Decoder} (hschema : d.schema = some ⟨table, columns⟩)
    {entries : List (List Value)}
    (hlength : ∀ values ∈ entries, values.length = columns.length)
    (h : ∀ values ∈ entries, ∀ v ∈ values, Encodable v) :
    d.decodeLines (entries.map entryLine) =
      entries.map fun values => .ok (some (rowOf table columns values)) := by
  induction entries generalizing d with
  | nil => rfl
  | cons values entries ih =>
      obtain ⟨hfirst, hrest⟩ := List.forall_mem_cons.1 hlength
      obtain ⟨hvalues, hentries⟩ := List.forall_mem_cons.1 h
      have hparse := parse_entry table hfirst hvalues
      rw [List.map_cons, Decoder.decodeLines, Decoder.decodeLine]
      simp only [hschema, hparse]
      exact congrArg _ (ih rfl hrest hentries)

/--
A dump is read back.  Its header gives no row, and each entry gives the row that
has its values under the columns, in the order of the columns' names, and the
table; the values are any that are not taken for others.
-/
theorem decodeLines_dump (d : Decoder) (table : String) {columns : List String}
    (hcolumns : columns.Nodup) (htable : Row.tableMember ∉ columns) {header : Members}
    (hheader : header.Perm (headerMembers table columns)) {entries : List (List Value)}
    (hlength : ∀ values ∈ entries, values.length = columns.length)
    (h : ∀ values ∈ entries, ∀ v ∈ values, Encodable v) :
    d.decodeLines ((Value.object header).text :: entries.map entryLine) =
        .ok none :: entries.map (fun values => .ok (some (rowOf table columns values))) ∧
      ∀ values ∈ entries,
        (rowOf table columns values).Perm
            ((Row.tableMember, .string table) :: columns.zip values) ∧
          (rowOf table columns values).Pairwise fun a b => compare a.1 b.1 = .lt := by
  refine ⟨?_, fun values hv =>
    ⟨rowOf_perm (hlength values hv) hcolumns htable, pairwise_inOrder _⟩⟩
  rw [Decoder.decodeLines, Decoder.decodeLine]
  simp only [parse_header _ hheader]
  exact congrArg _ (decodeLines_entries rfl hlength h)

/-- A row with a number, a string that has to be escaped, an object with a list, and a null. -/
def sampleValues : List Value :=
  [.number (.integer 7), .string "say \"\\N\"\n",
    .object [("type", .string "object"), ("x", .array [.null])], .null]

theorem encodable_sampleValues : ∀ v ∈ sampleValues, Encodable v := by
  simp only [sampleValues, List.forall_mem_cons]
  refine ⟨⟨nofun, .number _ ⟨by decide, by decide⟩⟩, ⟨?_, .string _ _⟩, ⟨nofun, ?_⟩, ⟨nofun, .null _⟩,
    List.forall_mem_nil _⟩
  · rintro s ⟨⟩
    decide
  · refine .object (by decide) ?_
    simp only [List.forall_mem_cons]
    refine ⟨.string _ _, .array ?_, List.forall_mem_nil _⟩
    exact List.forall_mem_singleton.2 (.null _)

/-- The sample is read back under a header that names the table first. -/
theorem decodeLines_sample :
    let columns := ["b", "a", "_value", "_etag"]
    let header : Members :=
      [("name", .string "manta"), ("keys", .array (columns.map .string))]
    ({} : Decoder).decodeLines [(Value.object header).text, entryLine sampleValues] =
      [.ok none,
        .ok (some [("__table", .string "manta"), ("_etag", .null),
          ("_value", .object [("type", .string "object"), ("x", .array [.null])]),
          ("a", .string "say \"\\N\"\n"), ("b", .number (.integer 7))])] := by
  intro columns header
  have hheader : header.Perm (headerMembers "manta" columns) := .swap _ _ _
  have hlength : ∀ values ∈ [sampleValues], values.length = columns.length := by
    decide
  have hencodable : ∀ values ∈ [sampleValues], ∀ v ∈ values, Encodable v :=
    List.forall_mem_singleton.2 encodable_sampleValues
  have hcolumns : columns.Nodup := by decide
  have htable : Row.tableMember ∉ columns := by decide
  exact (decodeLines_dump {} "manta" hcolumns htable hheader hlength hencodable).1

end Dump
end Reclaim
