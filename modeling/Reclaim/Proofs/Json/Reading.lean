import Mathlib.Data.List.Induction
import Reclaim.Json.Record
import Reclaim.Proofs.Json.RoundTrip
import Reclaim.Proofs.Success

/-!
# What can be read from a text

Whatever a text writes, a value that is read from it nests no deeper than the
bound, lists each member of an object once and in order, and has integers of 64
bits.  The readers of lists and objects only pass on what the readers of their
items give, so this is shown for them first.

Main results: `canonical_of_readValue` and `canonical_of_parse`.
-/

namespace Reclaim
namespace Json

/-! ## Numbers -/

/-- A number as it can be read: an integer has 64 bits. -/
def Number.Fits : Number → Prop
  | .integer n => -(Text.maxSigned64 : Int) - 1 ≤ n ∧ n ≤ Text.maxUnsigned64
  | .float _ => True

theorem absorb_le
    {n : Nat} (h : n ≤ Text.maxUnsigned64) (s : List Char) :
    (absorb n s).1 ≤ Text.maxUnsigned64 := by
  induction s generalizing n with
  | nil => exact h
  | cons c s ih =>
      rw [absorb]
      split
      · next hle => exact ih hle
      · exact h

theorem Number.fits_ofWhole
    (negative : Bool) {n : Nat} (h : n ≤ Text.maxUnsigned64) :
    (Number.ofWhole negative n).Fits := by
  have low : (0 : Int) ≤ Text.maxSigned64 := by decide
  rw [ofWhole]
  split
  · split
    · next hn =>
        simp only [Fits]
        omega
    · trivial
  · simp only [Fits]
    omega

theorem Number.fits_of_ofText?
    {t : NumberText} {n : Number} (h : ofText? t = some n) : n.Fits := by
  simp only [ofText?] at h
  split at h
  · obtain rfl := Option.some.inj h
    exact fits_ofWhole _ (absorb_le (by decide) _)
  · obtain ⟨x, -, rfl⟩ := Option.map_eq_some_iff.1 h
    trivial

theorem Number.fits_of_decodeNumber
    {t : NumberText} {n : Number} (h : decodeNumber t = .ok n) : n.Fits := by
  rw [decodeNumber] at h
  split at h
  · next hn =>
      obtain rfl := Except.ok.inj h
      exact fits_of_ofText? hn
  · cases h

/-! ## Lists and objects -/

section Combinators

variable {α δ : Type} {item : List Token → Except Fault (Taken α)}
variable {member : δ → String → List Token → Except Fault (Taken δ)}
variable {Holds : α → Prop} {Kept : δ → Prop}

theorem forall_of_furtherItems
    (one : ∀ ts x r, item ts = .ok (x, r) → Holds x)
    {fuel : Nat} {ts r : List Token} {xs : List α}
    (read : furtherItems item fuel ts = .ok (xs, r)) :
    ∀ x ∈ xs, Holds x := by
  induction fuel generalizing ts xs r with
  | zero =>
      unfold furtherItems at read
      split at read
      · cases read
        nofun
      · next h => cases h
      · cases read
  | succ fuel ih =>
      unfold furtherItems at read
      split at read
      · cases read
        nofun
      · next hfuel =>
          obtain rfl := Nat.succ.inj hfuel
          obtain ⟨⟨x, r₁⟩, hx, read⟩ := Success.of_bind read
          obtain ⟨⟨rest, r₂⟩, hrest, read⟩ := Success.of_bind read
          cases read
          exact List.forall_mem_cons.2 ⟨one _ x r₁ hx, ih hrest⟩
      · cases read

/-- The items of a list have what the reader of one item gives. -/
theorem forall_of_items
    (one : ∀ ts x r, item ts = .ok (x, r) → Holds x)
    {ts r : List Token} {xs : List α} (read : items item ts = .ok (xs, r)) :
    ∀ x ∈ xs, Holds x := by
  unfold items at read
  split at read
  · cases read
    nofun
  · obtain ⟨⟨x, r₁⟩, hx, read⟩ := Success.of_bind read
    obtain ⟨⟨rest, r₂⟩, hrest, read⟩ := Success.of_bind read
    cases read
    exact List.forall_mem_cons.2
      ⟨one _ x r₁ hx, forall_of_furtherItems one hrest⟩

theorem kept_of_oneMember
    (step : ∀ s name ts s' r, Kept s → member s name ts = .ok (s', r) → Kept s')
    {s s' : δ} {ts r : List Token} (hs : Kept s)
    (read : oneMember member s ts = .ok (s', r)) : Kept s' := by
  unfold oneMember at read
  split at read
  · obtain ⟨name, -, read⟩ := Success.of_bind read
    exact step s name _ s' r hs read
  · cases read

theorem kept_of_furtherMembers
    (step : ∀ s name ts s' r, Kept s → member s name ts = .ok (s', r) → Kept s')
    {fuel : Nat} {s s' : δ} {ts r : List Token} (hs : Kept s)
    (read : furtherMembers member fuel s ts = .ok (s', r)) : Kept s' := by
  induction fuel generalizing s ts with
  | zero =>
      unfold furtherMembers at read
      split at read
      · cases read
        exact hs
      · next h => cases h
      · cases read
  | succ fuel ih =>
      unfold furtherMembers at read
      split at read
      · cases read
        exact hs
      · next hfuel =>
          obtain rfl := Nat.succ.inj hfuel
          obtain ⟨⟨s₁, r₁⟩, hone, read⟩ := Success.of_bind read
          exact ih (kept_of_oneMember step hs hone) read
      · cases read

/-- The members of an object keep what the reader of one member keeps. -/
theorem kept_of_members
    (step : ∀ s name ts s' r, Kept s → member s name ts = .ok (s', r) → Kept s')
    {s s' : δ} {ts r : List Token} (hs : Kept s)
    (read : members member s ts = .ok (s', r)) : Kept s' := by
  unfold members at read
  split at read
  · cases read
    exact hs
  · obtain ⟨⟨s₁, r₁⟩, hone, read⟩ := Success.of_bind read
    exact kept_of_furtherMembers step (kept_of_oneMember step hs hone) read

theorem of_behindColon
    (one : ∀ ts x r, item ts = .ok (x, r) → Holds x)
    {ts r : List Token} {x : α} (read : behindColon item ts = .ok (x, r)) :
    Holds x := by
  unfold behindColon at read
  split at read
  · exact one _ x r read
  · cases read

end Combinators

/-! ## Values -/

theorem mem_setMember
    {name : String} {v : Value} {ms : Members} {m : String × Value}
    (h : m ∈ setMember name v ms) : m = (name, v) ∨ m ∈ ms := by
  induction ms with
  | nil => simpa [setMember] using h
  | cons x ms ih =>
      obtain ⟨n, w⟩ := x
      rw [setMember] at h
      split at h
      · simpa using h
      · rcases List.mem_cons.1 h with h | h
        · exact .inl h
        · exact .inr (List.mem_cons_of_mem _ h)
      · rcases List.mem_cons.1 h with h | h
        · exact .inr (h ▸ List.mem_cons_self)
        · rcases ih h with h | h
          · exact .inl h
          · exact .inr (List.mem_cons_of_mem _ h)

/-- A member is put in its place among members in order. -/
theorem pairwise_setMember
    {name : String} {v : Value} {ms : Members}
    (h : ms.Pairwise fun a b => compare a.1 b.1 = .lt) :
    (setMember name v ms).Pairwise fun a b => compare a.1 b.1 = .lt := by
  induction ms with
  | nil => exact List.pairwise_singleton _ _
  | cons x ms ih =>
      obtain ⟨n, w⟩ := x
      obtain ⟨hx, hms⟩ := List.pairwise_cons.1 h
      rw [setMember]
      split
      · next hlt =>
          refine List.pairwise_cons.2 ⟨?_, h⟩
          intro m hm
          rcases List.mem_cons.1 hm with rfl | hm
          · exact hlt
          · exact Std.TransCmp.lt_trans hlt (hx m hm)
      · next heq =>
          obtain rfl := Std.LawfulEqOrd.eq_of_compare heq
          exact List.pairwise_cons.2 ⟨hx, hms⟩
      · next hgt =>
          refine List.pairwise_cons.2 ⟨?_, ih hms⟩
          intro m hm
          rcases mem_setMember hm with rfl | hm
          · exact Std.OrientedCmp.lt_of_gt hgt
          · exact hx m hm

/-- A member of a new name comes to the members that are there. -/
theorem setMember_perm {name : String} (v : Value) {ms : Members}
    (h : name ∉ ms.map Prod.fst) : (setMember name v ms).Perm ((name, v) :: ms) := by
  induction ms with
  | nil => exact .refl _
  | cons x ms ih =>
      obtain ⟨n, w⟩ := x
      rw [List.map_cons, List.mem_cons, not_or] at h
      rw [setMember]
      split
      · exact .refl _
      · next heq => exact absurd (Std.LawfulEqOrd.eq_of_compare heq) h.1
      · exact ((ih h.2).cons (n, w)).trans (.swap (name, v) (n, w) ms)

/-- The members in the order of their names, of which the last of a name counts. -/
def inOrder (ms : Members) : Members :=
  ms.foldl (fun ms m => setMember m.1 m.2 ms) []

theorem inOrder_concat (ms : Members) (name : String) (v : Value) :
    inOrder (ms ++ [(name, v)]) = setMember name v (inOrder ms) := by
  rw [inOrder, List.foldl_append]
  rfl

theorem pairwise_inOrder (ms : Members) :
    (inOrder ms).Pairwise fun a b => compare a.1 b.1 = .lt := by
  induction ms using List.reverseRecOn with
  | nil => exact .nil
  | append_singleton ms m ih =>
      rw [inOrder_concat]
      exact pairwise_setMember ih

/-- Members with different names are only put into another order. -/
theorem inOrder_perm {ms : Members} (h : (ms.map Prod.fst).Nodup) :
    (inOrder ms).Perm ms := by
  induction ms using List.reverseRecOn with
  | nil => exact .refl _
  | append_singleton ms m ih =>
      have hlast := List.perm_append_singleton m ms
      obtain ⟨hnew, hrest⟩ := List.nodup_cons.1 ((hlast.map Prod.fst).nodup_iff.1 h)
      have hms := ih hrest
      rw [inOrder_concat]
      exact (setMember_perm m.2 (mt (hms.map Prod.fst).mem_iff.1 hnew)).trans
        ((hms.cons m).trans hlast.symm)

/-- Members in order are what any order of them is put into. -/
theorem inOrder_eq_of_perm {ms ms' : Members} (hperm : ms.Perm ms')
    (names : (ms'.map Prod.fst).Nodup) (h : ms'.Pairwise fun a b => compare a.1 b.1 = .lt) :
    inOrder ms = ms' := by
  have hms : (inOrder ms).Perm ms' :=
    (inOrder_perm ((hperm.map Prod.fst).nodup_iff.2 names)).trans hperm
  refine hms.eq_of_pairwise (fun a b _ _ hab hba => ?_) (pairwise_inOrder ms) h
  rw [Std.OrientedCmp.gt_of_lt hab] at hba
  cases hba

/-- The members of an object that nests no deeper than the bound. -/
def Members.Canonical (good : Number → Prop) (depth : Nat) (ms : Members) :
    Prop :=
  ms.Pairwise (fun a b => compare a.1 b.1 = .lt) ∧
    ∀ m ∈ ms, m.2.Canonical good depth

theorem Members.Canonical.setMember
    {good : Number → Prop} {depth : Nat} {ms : Members}
    (h : Members.Canonical good depth ms) (name : String) {v : Value}
    (hv : v.Canonical good depth) :
    Members.Canonical good depth (setMember name v ms) := by
  refine ⟨pairwise_setMember h.1, ?_⟩
  intro m hm
  rcases mem_setMember hm with rfl | hm
  · exact hv
  · exact h.2 m hm

/-- A value that is read nests no deeper than the bound, and its members are in order. -/
theorem canonical_of_readValue
    {depth : Nat} {ts r : List Token} {v : Value}
    (read : readValue depth ts = .ok (v, r)) :
    v.Canonical Number.Fits depth := by
  induction depth generalizing ts v r with
  | zero =>
      unfold readValue at read
      split at read
      · cases read
        exact .null _
      · cases read
        exact .bool _ _
      · obtain ⟨n, hn, read⟩ := Success.of_bind read
        cases read
        exact .number _ (Number.fits_of_decodeNumber hn)
      · obtain ⟨s, -, read⟩ := Success.of_bind read
        cases read
        exact .string _ s
      · next h => cases h
      · next h => cases h
      · cases read
  | succ depth ih =>
      unfold readValue at read
      split at read
      · cases read
        exact .null _
      · cases read
        exact .bool _ _
      · obtain ⟨n, hn, read⟩ := Success.of_bind read
        cases read
        exact .number _ (Number.fits_of_decodeNumber hn)
      · obtain ⟨s, -, read⟩ := Success.of_bind read
        cases read
        exact .string _ s
      · next hdepth =>
          obtain rfl := Nat.succ.inj hdepth
          obtain ⟨⟨xs, r₁⟩, hxs, read⟩ := Success.of_bind read
          cases read
          exact .array (forall_of_items (fun _ _ _ h => ih h) hxs)
      · next hdepth =>
          obtain rfl := Nat.succ.inj hdepth
          obtain ⟨⟨ms, r₁⟩, hms, read⟩ := Success.of_bind read
          cases read
          have kept : Members.Canonical Number.Fits depth ms := by
            refine kept_of_members ?_ ⟨List.Pairwise.nil, nofun⟩ hms
            intro ms name ts ms' r hms hstep
            obtain ⟨⟨w, r₂⟩, hw, hstep⟩ := Success.of_bind hstep
            cases hstep
            exact hms.setMember name
              (of_behindColon (fun _ _ _ h => ih h) hw)
          exact .object kept.1 kept.2
      · cases read

theorem of_readText
    {α : Type} {read : List Token → Except Fault (Taken α)} {s : String} {x : α}
    (h : readText read s = .ok x) : ∃ r, read (scan s.toList) = .ok (x, r) := by
  obtain ⟨⟨y, r⟩, hread, h⟩ := Success.of_bind h
  dsimp only at h
  split at h
  · obtain rfl := Except.ok.inj h
    exact ⟨r, hread⟩
  · cases h

/-- What a text writes nests no deeper than the bound, and its members are in order. -/
theorem canonical_of_parse {s : String} {v : Value} (h : parse s = .ok v) :
    v.Canonical Number.Fits maxDepth := by
  obtain ⟨r, hr⟩ := of_readText h
  exact canonical_of_readValue hr

/-- An object is read with its members in order, in whatever order they are printed. -/
theorem parse_text_object
    {ms : Members} (values : ∀ m ∈ ms, m.2.Canonical Number.ReadsBack (maxDepth - 1)) :
    parse (Value.object ms).text = .ok (.object (inOrder ms)) := by
  refine readText_of_takes (scansAs_object fun m hm => scansAs_of_canonical (values m hm)) ?_
  intro r
  have hvisits :=
    visits_foldl_setMember [] fun m hm => takes_readValue (values m hm)
  have hmembers := members_of_visits hvisits r
  rw [show maxDepth = (maxDepth - 1) + 1 from rfl, Value.tokens, List.cons_append, readValue,
    hmembers]
  rfl

/-- Bounds on the nesting and on the numbers may come from different sources. -/
theorem Value.Canonical.withNumbers
    {good fair : Number → Prop} {depth deep : Nat} {v : Value}
    (h : v.Canonical fair depth) (numbers : v.Canonical good deep) :
    v.Canonical good depth := by
  induction h generalizing deep with
  | null => exact .null _
  | bool _ b => exact .bool _ b
  | number _ _ =>
      cases numbers with
      | number _ hn => exact .number _ hn
  | string _ s => exact .string _ s
  | array _ ih =>
      cases numbers with
      | array items => exact .array fun x hx => ih x hx (items x hx)
  | object names _ ih =>
      cases numbers with
      | object _ values => exact .object names fun m hm => ih m hm (values m hm)

/-- A value stays canonical if it may nest deeper. -/
theorem Value.Canonical.deeper
    {good : Number → Prop} {depth : Nat} {v : Value}
    (h : v.Canonical good depth) {more : Nat} (le : depth ≤ more) :
    v.Canonical good more := by
  induction h generalizing more with
  | null => exact .null _
  | bool _ b => exact .bool _ b
  | number _ hn => exact .number _ hn
  | string _ s => exact .string _ s
  | array _ ih =>
      obtain ⟨k, rfl⟩ := Nat.exists_eq_add_of_le le
      rw [Nat.add_right_comm]
      exact .array fun x hx => ih x hx (Nat.le_add_right _ k)
  | object names _ ih =>
      obtain ⟨k, rfl⟩ := Nat.exists_eq_add_of_le le
      rw [Nat.add_right_comm]
      exact .object names fun m hm => ih m hm (Nat.le_add_right _ k)

end Json
end Reclaim
