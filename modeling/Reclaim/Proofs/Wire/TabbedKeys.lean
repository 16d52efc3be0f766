import Reclaim.Proofs.Wire.Sorting

/-!
# Keys with tabs

The key of a finalizing record may contain tabs, and its line goes on behind the
key with a tab and the shard.  Where the key of one record goes on with a tab
behind the key of another one, the lines are told apart by what is behind that
tab: a part of the longer key on one side, the shard on the other.  So the
record whose key is the later one may have the line that comes first.

That is the only case in which lines of upload records are not in the order of
the keys: sorted lines are taken unless two such records are among them.

Main results: `bytesBefore_line_iff` for two records, `takenSorted_iff` for the
lines of many.
-/

namespace Reclaim

namespace Text

/-- No character comes before the tab. -/
def FromTab (s : String) : Prop :=
  ∀ c ∈ s.toList, (compare tab c).isLE

instance (s : String) : Decidable (FromTab s) :=
  List.decidableBAll (fun c : Char => (compare tab c).isLE = true) s.toList

/-- Of two different fields the first one decides, unless the other one goes on with a tab. -/
theorem compare_join_cons_of_lt
    {f g : String} (hg : FromTab g) (h : compare f g = .lt)
    (apart : ∀ rest, g ≠ join tab [f, rest])
    {fs gs : List String} (hfs : fs ≠ []) (hgs : gs ≠ []) :
    compare (join tab (f :: fs)).toList (join tab (g :: gs)).toList = .lt := by
  rw [toList_join_cons tab f hfs, toList_join_cons tab g hgs]
  rw [compare_toList] at h
  refine compare_append_cons_of_lt hg h ?_ _ _
  rintro ⟨rest, hrest⟩
  refine apart (String.ofList rest) ?_
  rw [← String.toList_inj, toList_join_cons tab f (by simp),
    toList_join_singleton, String.toList_ofList, ← hrest, List.append_assoc,
    List.singleton_append]

/-- A field that goes on is the later one. -/
theorem compare_join_eq_lt (f rest : String) :
    compare f (join tab [f, rest]) = .lt := by
  have same : compare f.toList f.toList = .eq := Std.ReflCmp.compare_self
  have onwards := compare_append_of_length_eq (rfl : f.toList.length = _) []
    (tab :: (join tab [rest]).toList)
  rw [List.append_nil, same, Ordering.eq_then] at onwards
  rw [compare_toList, toList_join_cons tab f (by simp), onwards]
  rfl

end Text

namespace Upload

theorem Outcome.tab_not_mem_text (o : Outcome) : Text.tab ∉ o.text.toList := by
  cases o <;> decide

namespace Finalizing

/-- The fields of the line behind the key. -/
def tail (f : Finalizing) : List String :=
  [f.shard, f.outcome.text]

/-- A tail has one tab only, so nothing that goes on with a tail is one. -/
theorem join_cons_tail_ne
    {f : Finalizing} (shard : Text.tab ∉ f.shard.toList) (g : Finalizing)
    (rest : String) :
    Text.join Text.tab (rest :: g.tail) ≠ Text.join Text.tab f.tail := by
  intro h
  have tabs := congrArg (fun s => s.toList.count Text.tab) h
  simp only [tail, Text.toList_join_cons _ _ (List.cons_ne_nil _ _),
    Text.toList_join_singleton, List.count_append, List.count_cons_self,
    List.count_eq_zero_of_not_mem shard,
    List.count_eq_zero_of_not_mem (Outcome.tab_not_mem_text _)] at tabs
  omega

/-- Behind a key that the other one goes on from, a tail is compared with what is left. -/
theorem compare_of_longer
    {f g : Finalizing} {rest : String}
    (longer : g.key = Text.join Text.tab [f.key, rest]) :
    compare (Text.join Text.tab (f.key :: f.tail)).toList
        (Text.join Text.tab (g.key :: g.tail)).toList =
      compare (Text.join Text.tab f.tail).toList
        (Text.join Text.tab (rest :: g.tail)).toList := by
  rw [longer, Text.join_join_cons _ _ _ (by simp [tail])]
  exact Text.compare_join_cons_self _ (by simp [tail]) (by simp)

/-- The smaller key comes first with its tail, unless what is left of the other one comes before. -/
theorem bytesBefore_of_key_lt
    {f g : Finalizing} (shard : Text.tab ∉ f.shard.toList)
    (key : Text.FromTab g.key) (h : compare f.key g.key = .lt)
    (hover : ∀ rest, g.key = Text.join Text.tab [f.key, rest] →
      ¬ Text.BytesBefore (Text.join Text.tab (rest :: g.tail))
        (Text.join Text.tab f.tail)) :
    Text.BytesBefore (Text.join Text.tab (f.key :: f.tail))
      (Text.join Text.tab (g.key :: g.tail)) := by
  simp only [Text.bytesBefore_iff_toList] at hover ⊢
  by_cases longer : ∃ rest, g.key = Text.join Text.tab [f.key, rest]
  · obtain ⟨rest, longer⟩ := longer
    rw [compare_of_longer longer]
    cases order : compare (Text.join Text.tab f.tail).toList
        (Text.join Text.tab (rest :: g.tail)).toList with
    | lt => rfl
    | eq =>
        have same := String.toList_inj.1 (Std.LawfulEqOrd.eq_of_compare order)
        exact absurd same.symm (f.join_cons_tail_ne shard g rest)
    | gt => exact absurd (Std.OrientedCmp.lt_of_gt order) (hover rest longer)
  · exact Text.compare_join_cons_of_lt key h (not_exists.1 longer)
      (by simp [tail]) (by simp [tail])

end Finalizing

namespace Record

/--
Of two records of an upload with one date, the key of `g` goes on with a tab
behind the key of `f`, and what its line has behind that tab comes before the
shard and the outcome of `f`.
-/
inductive Undercuts : Record → Record → Prop
  | intro {f g : Finalizing} {rest : String}
      (upload : g.upload = f.upload) (date : g.date = f.date)
      (longer : g.key = Text.join Text.tab [f.key, rest])
      (first : Text.BytesBefore (Text.join Text.tab (rest :: g.tail))
        (Text.join Text.tab f.tail)) :
      Undercuts (finalizing g) (finalizing f)

/-- The order of keys, part by part. -/
theorem sortKey_lt_iff {r s : Record} :
    compare r.sortKey s.sortKey = .lt ↔
      compare r.upload s.upload = .lt ∨ compare r.upload s.upload = .eq ∧
        (compare r.tag s.tag = .lt ∨ compare r.tag s.tag = .eq ∧
          (compare r.date s.date = .lt ∨ compare r.date s.date = .eq ∧
            compare r.key s.key = .lt)) := by
  rw [show compare r.sortKey s.sortKey =
      (compare r.upload s.upload).then ((compare r.tag s.tag).then
        ((compare r.date s.date).then (compare r.key s.key))) from rfl]
  simp only [Ordering.then_eq_lt]

/-- The order of lines, part by part. -/
theorem bytesBefore_line_parts
    {r s : Record} (hr : r.Carried) (hs : s.Carried) :
    Text.BytesBefore r.line s.line ↔
      compare r.upload s.upload = .lt ∨ compare r.upload s.upload = .eq ∧
        (compare r.tag s.tag = .lt ∨ compare r.tag s.tag = .eq ∧
          (compare r.date s.date = .lt ∨ compare r.date s.date = .eq ∧
            Text.BytesBefore (Text.join Text.tab r.restFields)
              (Text.join Text.tab s.restFields))) := by
  rw [Text.bytesBefore_iff_toList, Text.bytesBefore_iff_toList, compare_line,
    Time.Instant.compare_text hr.year hs.year,
    Time.Instant.truncateToMillis_of_isWholeMilli hr.milli,
    Time.Instant.truncateToMillis_of_isWholeMilli hs.milli]
  simp only [Ordering.then_eq_lt]

theorem Undercuts.sortKey_lt {r s : Record} (h : s.Undercuts r) :
    compare r.sortKey s.sortKey = .lt := by
  obtain ⟨upload, date, longer, -⟩ := h
  simp only [sortKey_lt_iff, Record.upload, Record.date, Record.key, tag,
    upload, date, longer, Text.compare_join_eq_lt, Std.ReflCmp.compare_self,
    and_true, or_true]

/-- The record whose key is the later one has the line that comes first. -/
theorem Undercuts.bytesBefore_line
    {r s : Record} (hr : r.Carried) (hs : s.Carried) (h : s.Undercuts r) :
    Text.BytesBefore s.line r.line := by
  obtain @⟨f, g, rest, upload, date, longer, first⟩ := h
  rw [Text.bytesBefore_iff_toList] at first
  have behind : Text.BytesBefore (Text.join Text.tab (g.key :: g.tail))
      (Text.join Text.tab (f.key :: f.tail)) := by
    rw [Text.bytesBefore_iff_toList]
    apply Std.OrientedCmp.lt_of_gt
    rw [Finalizing.compare_of_longer longer]
    exact Std.OrientedCmp.gt_of_lt first
  rw [bytesBefore_line_parts hs hr]
  simp only [Record.upload, Record.date, tag, upload, date,
    Std.ReflCmp.compare_self, true_and]
  exact .inr (.inr (.inr behind))

/-- Where the key comes first and is not undercut, so does the rest of the line. -/
theorem bytesBefore_restFields
    {r s : Record} (tabs : r.TabsInKey) (key : Text.FromTab s.key)
    (upload : r.upload = s.upload) (tag : r.tag = s.tag) (date : r.date = s.date)
    (h : compare r.key s.key = .lt) (hover : ¬ s.Undercuts r) :
    Text.BytesBefore (Text.join Text.tab r.restFields)
      (Text.join Text.tab s.restFields) := by
  cases r with
  | finalizing f =>
      cases s with
      | finalizing g =>
          exact Finalizing.bytesBefore_of_key_lt tabs key h
            fun rest longer first =>
              hover (.intro upload.symm date.symm longer first)
      | live l => obtain ⟨_, _, _, _ | _⟩ := l <;> cases tag
  | live k =>
      cases s with
      | finalizing g => obtain ⟨_, _, _, _ | _⟩ := k <;> cases tag
      | live l =>
          simp only [Text.bytesBefore_iff_toList, restFields,
            Text.toList_join_singleton, ← Text.compare_toList]
          exact h

/-- The line of the smaller key comes first where it is not undercut. -/
theorem bytesBefore_line_of_not_undercuts
    {r s : Record} (hr : r.Carried) (hs : s.Carried) (key : Text.FromTab s.key)
    (h : compare r.sortKey s.sortKey = .lt) (hover : ¬ s.Undercuts r) :
    Text.BytesBefore r.line s.line := by
  rw [bytesBefore_line_parts hr hs]
  refine (sortKey_lt_iff.1 h).imp_right fun ⟨upload, h⟩ => ⟨upload, ?_⟩
  refine h.imp_right fun ⟨tag, h⟩ => ⟨tag, ?_⟩
  refine h.imp_right fun ⟨date, h⟩ => ⟨date, ?_⟩
  exact bytesBefore_restFields hr.tabs key
    (Std.LawfulEqOrd.eq_of_compare upload) (Std.LawfulEqOrd.eq_of_compare tag)
    (Std.LawfulEqOrd.eq_of_compare date) h hover

/--
Of two records, the line of the one with the smaller key comes first as bytes
unless the other one undercuts it.
-/
theorem bytesBefore_line_iff
    {r s : Record} (hr : r.Carried) (hs : s.Carried) (key : Text.FromTab s.key)
    (h : compare r.sortKey s.sortKey = .lt) :
    Text.BytesBefore r.line s.line ↔ ¬ s.Undercuts r := by
  constructor
  · intro before undercuts
    have after := undercuts.bytesBefore_line hr hs
    rw [Text.bytesBefore_iff] at before after
    rw [Std.OrientedCmp.gt_of_lt after] at before
    cases before
  · exact bytesBefore_line_of_not_undercuts hr hs key h

section Sample

/-- The record of an object without a tab in its key. -/
def plainKey : Record :=
  .finalizing ⟨sampleUpload (.last 15), "a", "1.moray", .wholeSecond 1, .commit⟩

/-- The record of an object whose key goes on with a tab. -/
def tabbedKey : Record :=
  .finalizing ⟨sampleUpload (.last 15), "a\t0", "1.moray", .wholeSecond 1, .commit⟩

theorem carried_tabbedKeys : plainKey.Carried ∧ tabbedKey.Carried := by
  have shard : Text.tab ∉ "1.moray".toList := by decide
  have year : plainKey.date.HasFourDigitYear :=
    Time.Instant.hasFourDigitYear_iff.2 (by decide)
  exact ⟨⟨shard, year, by decide⟩, ⟨shard, year, by decide⟩⟩

theorem undercuts_tabbedKey : tabbedKey.Undercuts plainKey := by
  have first : Text.BytesBefore "0\t1.moray\tcommit" "1.moray\tcommit" :=
    Text.bytesBefore_iff_toList.2 (by decide)
  exact .intro rfl rfl (by decide : "a\t0" = Text.join Text.tab ["a", "0"]) first

/-- The key with the tab is the later one, but its line comes first. -/
theorem bytesBefore_line_of_tabbedKey :
    plainKey.Carried ∧ tabbedKey.Carried ∧ Text.FromTab tabbedKey.key ∧
      compare plainKey.sortKey tabbedKey.sortKey = .lt ∧
      tabbedKey.Undercuts plainKey ∧
      ¬ Text.BytesBefore plainKey.line tabbedKey.line := by
  obtain ⟨plain, tabbed⟩ := carried_tabbedKeys
  have key : Text.FromTab tabbedKey.key := by decide
  have lt : compare plainKey.sortKey tabbedKey.sortKey = .lt := by decide
  refine ⟨plain, tabbed, key, lt, undercuts_tabbedKey, fun before => ?_⟩
  exact (bytesBefore_line_iff plain tabbed key lt).1 before undercuts_tabbedKey

/-- Tabs in keys put lines out of order, also without line ends and what comes before tabs. -/
theorem not_forall_bytesBefore_line :
    ¬ ∀ r s : Record, r.Carried → s.Carried →
      (∀ t ∈ [r, s], Text.FromTab t.key ∧ '\n' ∉ t.key.toList) →
      compare r.sortKey s.sortKey = .lt → Text.BytesBefore r.line s.line := by
  intro all
  obtain ⟨plain, tabbed⟩ := carried_tabbedKeys
  have before := all plainKey tabbedKey plain tabbed (by decide)
    undercuts_tabbedKey.sortKey_lt
  have after := undercuts_tabbedKey.bytesBefore_line plain tabbed
  rw [Text.bytesBefore_iff] at before after
  rw [Std.OrientedCmp.gt_of_lt after] at before
  cases before

end Sample

/-- Sorted lines of records are taken by the collector unless one record undercuts another. -/
theorem takenSorted_iff
    (policy : GracePolicy) {records : List Record}
    (carried : ∀ r ∈ records, r.Carried ∧ Text.FromTab r.key) :
    Wire.TakenSorted parse sortKey (collector policy) .start
        (records.map line) ↔
      ∀ r ∈ records, ∀ s ∈ records, ¬ s.Undercuts r := by
  have read : ∀ r ∈ records, parse r.line = .ok r :=
    fun r hr => parse_line_of_carried (carried r hr).1
  constructor
  · intro taken r hr s hs undercuts
    have before := undercuts.bytesBefore_line (carried r hr).1 (carried s hs).1
    have le := taken.key_le_of_line_lt read s hs r hr
      (Text.bytesBefore_iff_toList.1 before)
    rw [Std.OrientedCmp.gt_of_lt undercuts.sortKey_lt] at le
    cases le
  · intro hover
    refine Wire.takenSorted_of_follows (collector_takes policy)
      (fun r hr => ⟨r, read r hr⟩) ?_
    intro r hr s hs hle r' s' hr' hs'
    rw [read r hr] at hr'
    rw [read s hs] at hs'
    cases hr'
    cases hs'
    cases order : compare r.sortKey s.sortKey with
    | lt => rfl
    | eq => rfl
    | gt =>
        have before := bytesBefore_line_of_not_undercuts (carried s hs).1
          (carried r hr).1 (carried r hr).2 (Std.OrientedCmp.lt_of_gt order)
          (hover s hs r hr)
        rw [Text.bytesBefore_iff_toList] at before
        rw [Std.OrientedCmp.gt_of_lt before] at hle
        cases hle

end Record
end Upload
end Reclaim
