import Reclaim.Proofs.Stream.Order
import Reclaim.Proofs.Time.TextOrder
import Reclaim.Proofs.Wire.Lines

/-!
# The order of lines is the order of rows

The lines of sorted rows have been sorted as bytes.  In the formats whose rows
are sorted, the fields of a line stand in the order of the parts of the sort
key, and a tab comes before every character of a field that it ends.  So where
one line is not after another, the key of its row is not after the key of the
other.

Main results: `key_le_of_line_le` of each type of row.
-/

namespace Reclaim

/-- Later parts only matter where the parts before them agree. -/
theorem isLE_then_of_isLE_then
    {a x y : Ordering} (h : (a.then x).isLE)
    (hxy : a = .eq → x.isLE → y.isLE) : (a.then y).isLE := by
  cases a with
  | lt => rfl
  | eq => exact hxy rfl h
  | gt => cases h

namespace Text

/-- All characters come after the tab. -/
def AboveTab (s : String) : Prop :=
  ∀ c ∈ s.toList, compare tab c = .lt

instance (s : String) : Decidable (AboveTab s) :=
  List.decidableBAll (fun c : Char => compare tab c = .lt) s.toList

theorem AboveTab.tab_not_mem {s : String} (h : AboveTab s) :
    tab ∉ s.toList := by
  intro hm
  have same : compare tab tab = .eq := Std.ReflCmp.compare_self
  rw [h tab hm] at same
  cases same

/-- Of two lines, the first fields decide unless they are the same. -/
theorem compare_join_cons
    {f g : String} (hf : AboveTab f) (hg : AboveTab g)
    {fs gs : List String} (hfs : fs ≠ []) (hgs : gs ≠ []) :
    compare (join tab (f :: fs)).toList (join tab (g :: gs)).toList =
      (compare f g).then
        (compare (join tab fs).toList (join tab gs).toList) := by
  rw [toList_join_cons tab f hfs, toList_join_cons tab g hgs,
    compare_append_cons_of_above hf hg, compare_toList]

/-- A first field that is the same does not decide. -/
theorem compare_join_cons_self
    (f : String) {fs gs : List String} (hfs : fs ≠ []) (hgs : gs ≠ []) :
    compare (join tab (f :: fs)).toList (join tab (f :: gs)).toList =
      compare (join tab fs).toList (join tab gs).toList := by
  have same : compare f.toList f.toList = .eq := Std.ReflCmp.compare_self
  rw [toList_join_cons tab f hfs, toList_join_cons tab f hgs,
    compare_append_of_length_eq rfl, compare_cons_self, same, Ordering.eq_then]

theorem Printable.aboveTab {s : String} (h : Printable s.toList) :
    AboveTab s := by
  intro c hc
  rw [compare_char, Nat.compare_eq_lt]
  exact Nat.lt_of_lt_of_le (by decide) (h c hc)

end Text

namespace Uuid

theorem compare_hexDigit (d e : Fin 16) :
    compare (Text.hexDigit d) (Text.hexDigit e) = compare d e := by
  have all : ∀ d e : Fin 16,
      compare (Text.hexDigit d) (Text.hexDigit e) = compare d e := by
    decide
  exact all d e

theorem compare_characters (u v : Uuid) :
    compare u.characters v.characters = compare u v := by
  have all : ∀ ds es : List (Fin 16),
      compare (ds.map fun d : Fin 16 => Text.hexDigit d.val)
        (es.map fun d : Fin 16 => Text.hexDigit d.val) = compare ds es := by
    intro ds
    induction ds with
    | nil =>
        intro es
        cases es <;> rfl
    | cons d ds ih =>
        intro es
        cases es with
        | nil => rfl
        | cons e es =>
            simp only [List.map_cons, List.compare_cons_cons, ih,
              compare_hexDigit]
  exact all u.digits v.digits

/-- Hyphens at the same places do not change the order. -/
theorem compare_append_hyphen
    {p q : List Char} (h : p.length = q.length) {x y x' y' : List Char}
    (hxy : compare x y = compare x' y') :
    compare (p ++ '-' :: x) (q ++ '-' :: y) = compare (p ++ x') (q ++ y') := by
  rw [Text.compare_append_of_length_eq h, Text.compare_append_of_length_eq h,
    Text.compare_cons_self, hxy]

theorem characters_eq (u : Uuid) :
    u.characters = u.characters.take 8 ++ ((u.characters.drop 8).take 4 ++
      ((u.characters.drop 12).take 4 ++ ((u.characters.drop 16).take 4 ++
        u.characters.drop 20))) := by
  have e₁ := List.take_append_drop 4 (u.characters.drop 16)
  have e₂ := List.take_append_drop 4 (u.characters.drop 12)
  have e₃ := List.take_append_drop 4 (u.characters.drop 8)
  rw [List.drop_drop] at e₁ e₂ e₃
  rw [e₁, e₂, e₃, List.take_append_drop]

/-- Uuids are ordered as their texts. -/
theorem compare_text (u v : Uuid) : compare u.text v.text = compare u v := by
  have hu := u.length_characters
  have hv := v.length_characters
  have length : ∀ m n, ((u.characters.drop m).take n).length =
      ((v.characters.drop m).take n).length := by
    intro m n
    simp [hu, hv]
  rw [Text.compare_toList, ← compare_characters, characters_eq u,
    characters_eq v]
  simp only [text, String.toList_ofList, textChars, List.append_assoc,
    List.cons_append]
  refine compare_append_hyphen (length 0 8) ?_
  refine compare_append_hyphen (length 8 4) ?_
  refine compare_append_hyphen (length 12 4) ?_
  exact compare_append_hyphen (length 16 4) rfl

end Uuid
namespace Object
namespace Row

/-- The parts of the key stand in the order of the fields of the line. -/
theorem compare_line
    {r s : Row} (hr : Text.AboveTab r.objectId) (hs : Text.AboveTab s.objectId) :
    ∃ rest : Ordering, (rest.isLE → (compare r.state.tag s.state.tag).isLE) ∧
      compare r.line.toList s.line.toList =
        (compare r.objectId s.objectId).then
          ((compare r.date.text s.date.text).then rest) := by
  have dates := r.date.printable_text.aboveTab
  have dates' := s.date.printable_text.aboveTab
  obtain ⟨ri, rd, rs⟩ := r
  obtain ⟨si, sd, ss⟩ := s
  have start : ∀ fs gs : List String, fs ≠ [] → gs ≠ [] →
      compare (Text.join Text.tab (ri :: rd.text :: fs)).toList
          (Text.join Text.tab (si :: sd.text :: gs)).toList =
        (compare ri si).then ((compare rd.text sd.text).then
          (compare (Text.join Text.tab fs).toList
            (Text.join Text.tab gs).toList)) := by
    intro fs gs hfs hgs
    rw [Text.compare_join_cons hr hs (by simp) (by simp),
      Text.compare_join_cons dates dates' hfs hgs]
  cases rs with
  | live =>
      cases ss with
      | live => exact ⟨_, fun _ => rfl, start ["live"] ["live"] (by simp) (by simp)⟩
      | dead payload shard =>
          refine ⟨_, fun h => ?_, start ["live"] ["dead", payload.text, shard]
            (by simp) (by simp)⟩
          rw [Text.toList_join_singleton, Text.toList_join_cons _ _ (by simp)]
            at h
          cases h
  | dead payload shard =>
      cases ss with
      | live =>
          exact ⟨_, fun _ => rfl, start ["dead", payload.text, shard] ["live"]
            (by simp) (by simp)⟩
      | dead payload' shard' =>
          exact ⟨_, fun _ => rfl, start ["dead", payload.text, shard]
            ["dead", payload'.text, shard'] (by simp) (by simp)⟩

/-- Where a line is not after another, the key of its row is not either. -/
theorem key_le_of_line_le
    {r s : Row} (hr : Text.AboveTab r.objectId) (hs : Text.AboveTab s.objectId)
    {t u : Time.Instant}
    (date : compare r.date.text s.date.text = compare t u)
    (h : (compare r.line.toList s.line.toList).isLE) :
    (compare ({ r with date := t } : Row).key { s with date := u }.key).isLE := by
  obtain ⟨rest, hrest, hline⟩ := compare_line hr hs
  rw [hline, date] at h
  exact isLE_then_of_isLE_then h fun _ h =>
    isLE_then_of_isLE_then h fun _ => hrest

end Row
end Object
namespace Upload
namespace Record

/-- All fields of the record but the key of a live one come after tabs. -/
def AboveTabs : Record → Prop
  | finalizing f => Text.AboveTab f.key ∧ Text.AboveTab f.shard
  | live _ => True

theorem AboveTabs.tabsInKey {r : Record} (h : r.AboveTabs) : r.TabsInKey := by
  cases r with
  | finalizing => exact h.2.tab_not_mem
  | live => trivial

theorem compare_tag_texts (r s : Record) :
    compare (toString r.tag) (toString s.tag) = compare r.tag s.tag := by
  have all : ∀ m n : Fin 3,
      compare (toString m.val).toList (toString n.val).toList =
        compare m.val n.val := by
    decide
  have tag_lt : ∀ r : Record, r.tag < 3 := by
    rintro (f | ⟨_, _, _, _ | _⟩) <;> simp [tag]
  rw [Text.compare_toList]
  exact all ⟨r.tag, tag_lt r⟩ ⟨s.tag, tag_lt s⟩

/-- The fields of a line behind the date. -/
def restFields : Record → List String
  | finalizing f => [f.key, f.shard, f.outcome.text]
  | live l => [l.key]

/-- The parts of the key stand in the order of the fields of the line. -/
theorem compare_line (r s : Record) :
    compare r.line.toList s.line.toList =
      (compare r.upload s.upload).then
        ((compare r.tag s.tag).then
          ((compare r.date.text s.date.text).then
            (compare (Text.join Text.tab r.restFields).toList
              (Text.join Text.tab s.restFields).toList))) := by
  have tags : ∀ r : Record, Text.AboveTab (toString r.tag) :=
    fun r => (Text.printable_toString_nat r.tag).aboveTab
  have written : ∀ r : Record, r.line = Text.join Text.tab
      (r.upload.text :: toString r.tag :: r.date.text :: r.restFields) := by
    rintro (f | l) <;> rfl
  have rest : ∀ r : Record, r.restFields ≠ [] := by
    rintro (f | l) <;> simp [restFields]
  rw [written, written,
    Text.compare_join_cons r.upload.printable_text.aboveTab
      s.upload.printable_text.aboveTab (by simp) (by simp),
    Text.compare_join_cons (tags r) (tags s) (by simp) (by simp),
    Text.compare_join_cons r.date.printable_text.aboveTab
      s.date.printable_text.aboveTab (rest r) (rest s),
    Uuid.compare_text, compare_tag_texts]

/-- Where a line is not after another, the key of its record is not either. -/
theorem key_le_of_line_le
    {r s : Record} (hr : r.AboveTabs) (hs : s.AboveTabs)
    {t u : Time.Instant}
    (date : compare r.date.text s.date.text = compare t u)
    (h : (compare r.line.toList s.line.toList).isLE) :
    (compare (r.atDate t).sortKey (s.atDate u).sortKey).isLE := by
  have keys : r.tag = s.tag →
      (compare (Text.join Text.tab r.restFields).toList
        (Text.join Text.tab s.restFields).toList).isLE →
      (compare r.key s.key).isLE := by
    intro same h
    cases r with
    | finalizing f =>
        cases s with
        | finalizing g =>
            simp only [restFields] at h
            rw [Text.compare_join_cons hr.1 hs.1 (by simp) (by simp)] at h
            exact Ordering.isLE_left_of_isLE_then h
        | live l =>
            obtain ⟨_, _, _, _ | _⟩ := l <;> cases same
    | live k =>
        cases s with
        | finalizing g =>
            obtain ⟨_, _, _, _ | _⟩ := k <;> cases same
        | live l =>
            simp only [restFields, Text.toList_join_singleton] at h
            rwa [← Text.compare_toList] at h
  have parts : ∀ (r : Record) (t : Time.Instant),
      (r.atDate t).sortKey = (r.upload, r.tag, t, r.key) := by
    rintro (f | ⟨_, _, _, _ | _⟩) t <;> rfl
  rw [compare_line, date] at h
  rw [parts, parts]
  refine isLE_then_of_isLE_then h fun _ h => ?_
  refine isLE_then_of_isLE_then h fun same h => ?_
  exact isLE_then_of_isLE_then h fun _ =>
    keys (Std.LawfulEqOrd.eq_of_compare same)

end Record
end Upload

namespace Cruft
namespace Row

/-- All fields of the row come after tabs. -/
def AboveTabs : Row → Prop
  | stored objectId storageId owner _ =>
      Text.AboveTab objectId ∧ Text.AboveTab storageId ∧ Text.AboveTab owner
  | reference objectId => Text.AboveTab objectId

/-- The fields that the key is made of come after tabs. -/
def KeyAboveTabs : Row → Prop
  | stored objectId storageId _ _ =>
      Text.AboveTab objectId ∧ Text.AboveTab storageId
  | reference objectId => Text.AboveTab objectId

theorem AboveTabs.keyAboveTabs {r : Row} (h : r.AboveTabs) :
    r.KeyAboveTabs := by
  cases r with
  | stored => exact ⟨h.1, h.2.1⟩
  | reference => exact h

theorem AboveTabs.noTabs {r : Row} (h : r.AboveTabs) : r.NoTabs := by
  cases r with
  | stored =>
      exact ⟨h.1.tab_not_mem, h.2.1.tab_not_mem, h.2.2.tab_not_mem⟩
  | reference => exact h.tab_not_mem

/-- Where a line is not after another, the key of its row is not either. -/
theorem key_le_of_line_le
    {r s : Row} (hr : r.KeyAboveTabs) (hs : s.KeyAboveTabs)
    (h : (compare r.line.toList s.line.toList).isLE) :
    (compare r.key s.key).isLE := by
  cases r with
  | stored id storageId owner date =>
      cases s with
      | stored id' storageId' owner' date' =>
          simp only [line] at h
          rw [Text.compare_join_cons hr.1 hs.1 (by simp) (by simp),
            Text.compare_join_cons_self _ (by simp) (by simp),
            Text.compare_join_cons hr.2 hs.2 (by simp) (by simp)] at h
          exact isLE_then_of_isLE_then h
            fun _ => Ordering.isLE_left_of_isLE_then
      | reference id' =>
          simp only [line] at h
          rw [Text.compare_join_cons hr.1 hs (by simp) (by simp)] at h
          exact isLE_then_of_isLE_then h fun _ _ => rfl
  | reference id =>
      cases s with
      | stored id' storageId' owner' date' =>
          simp only [line] at h
          rw [Text.compare_join_cons hr hs.1 (by simp) (by simp),
            Text.toList_join_singleton, Text.toList_join_cons _ _ (by simp)]
            at h
          exact isLE_then_of_isLE_then h fun _ h => by cases h
      | reference id' =>
          simp only [line] at h
          rw [Text.compare_join_cons hr hs (by simp) (by simp)] at h
          exact isLE_then_of_isLE_then h fun _ _ => rfl

end Row
end Cruft

namespace Audit
namespace Row

/-- All fields of the row but the key come after tabs. -/
def AboveTabs : Row → Prop
  | stored objectId storageId =>
      Text.AboveTab objectId ∧ Text.AboveTab storageId
  | expected objectId storageId owner _ =>
      Text.AboveTab objectId ∧ Text.AboveTab storageId ∧ Text.AboveTab owner

theorem AboveTabs.tabsInKey {r : Row} (h : r.AboveTabs) : r.TabsInKey := by
  cases r with
  | stored => exact ⟨h.1.tab_not_mem, h.2.tab_not_mem⟩
  | expected =>
      exact ⟨h.1.tab_not_mem, h.2.1.tab_not_mem, h.2.2.tab_not_mem⟩

/-- Where a line is not after another, the key of its row is not either. -/
theorem key_le_of_line_le
    {r s : Row} (hr : r.AboveTabs) (hs : s.AboveTabs)
    (h : (compare r.line.toList s.line.toList).isLE) :
    (compare r.key s.key).isLE := by
  cases r with
  | stored id storageId =>
      cases s with
      | stored id' storageId' =>
          simp only [line] at h
          rw [Text.compare_join_cons hr.1 hs.1 (by simp) (by simp),
            Text.compare_join_cons_self _ (by simp) (by simp),
            Text.toList_join_singleton, Text.toList_join_singleton,
            ← Text.compare_toList] at h
          exact isLE_then_of_isLE_then h fun _ h => h
      | expected id' storageId' owner' key' =>
          simp only [line] at h
          rw [Text.compare_join_cons hr.1 hs.1 (by simp) (by simp)] at h
          exact isLE_then_of_isLE_then h fun _ _ => rfl
  | expected id storageId owner key =>
      cases s with
      | stored id' storageId' =>
          simp only [line] at h
          rw [Text.compare_join_cons hr.1 hs.1 (by simp) (by simp),
            Text.toList_join_cons Text.tab "moray" (by simp),
            Text.toList_join_cons Text.tab "mako" (by simp)] at h
          exact isLE_then_of_isLE_then h fun _ h => by cases h
      | expected id' storageId' owner' key' =>
          simp only [line] at h
          rw [Text.compare_join_cons hr.1 hs.1 (by simp) (by simp),
            Text.compare_join_cons_self _ (by simp) (by simp),
            Text.compare_join_cons hr.2.1 hs.2.1 (by simp) (by simp)] at h
          exact isLE_then_of_isLE_then h
            fun _ => Ordering.isLE_left_of_isLE_then

end Row
end Audit
end Reclaim
