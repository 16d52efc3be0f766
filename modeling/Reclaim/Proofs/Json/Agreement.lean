import Mathlib.Data.List.Nodup
import Mathlib.Data.List.Pairwise
import Reclaim.Json.Record
import Reclaim.Proofs.Json.Written

/-!
# Texts and values are read alike

A codec reads a text as it reads the value that the text writes, provided that
the text repeats no name in an object.  The two ways may stop at different
faults, but one of them succeeds if the other one does, and with the same data.
A record takes the members of a text as they are written and those of a value in
the order of their names, which makes no difference if its fields have different
parts of the draft.

Main results: `Codec.Agrees.list` and `Codec.Agrees.record`, from which it
follows for every codec, and `Codec.Agrees.toOption_ofText` for whole texts.
-/

namespace Reclaim
namespace Json

/-! ## Skipped values -/

/--
The tokens up to the rest can be passed over.  The levels that are allowed for this
are as many as there are tokens, so that these have to become fewer.
-/
def Skipped (ts r : List Token) : Prop :=
  r.length < ts.length ∧ ∀ n, ts.length ≤ n → skipNested n ts = .ok ((), r)

section Skipping

variable {α : Type} {item : List Token → Except Fault (Taken α)}
variable {value : List Token → Except Fault (Taken Value)}
variable {ts r : List Token}

theorem FurtherItems.skipped {xs : List α} (h : FurtherItems item ts xs r)
    (one : ∀ ts x r, item ts = .ok (x, r) → Skipped ts r) :
    r.length < ts.length ∧ ∀ n fuel, ts.length ≤ n → xs.length ≤ fuel →
      ∃ us, furtherItems (skipNested n) fuel ts = .ok (us, r) := by
  induction h with
  | close r => exact ⟨by simp, fun n fuel _ _ => ⟨[], by cases fuel <;> rfl⟩⟩
  | @next ts r r' x xs hx _ ih =>
      obtain ⟨hshort, hskip⟩ := one ts x r hx
      refine ⟨by simp only [List.length_cons]; omega, fun n fuel hn hfuel => ?_⟩
      obtain _ | fuel := fuel
      · simp at hfuel
      · rw [List.length_cons] at hn hfuel
        obtain ⟨us, hus⟩ := ih.2 n fuel (by omega) (by omega)
        rw [furtherItems, hskip n (by omega)]
        simp only [bind, Except.bind, hus]
        exact ⟨_, rfl⟩

theorem AllItems.skipped {xs : List α} (h : AllItems item ts xs r)
    (one : ∀ ts x r, item ts = .ok (x, r) → Skipped ts r) :
    r.length < ts.length ∧ ∀ n, ts.length ≤ n →
      ∃ us, items (skipNested n) ts = .ok (us, r) := by
  cases h with
  | none r => exact ⟨by simp, fun n _ => ⟨[], rfl⟩⟩
  | @some ts r r' x xs opens hx hrest hfits =>
      obtain ⟨hshort, hskip⟩ := one ts x r hx
      obtain ⟨hshorter, hskips⟩ := hrest.skipped one
      refine ⟨by omega, fun n hn => ?_⟩
      obtain ⟨us, hus⟩ := hskips n r.length (by omega) hfits
      rw [items.eq_2 _ ts opens, hskip n hn]
      simp only [bind, Except.bind, hus]
      exact ⟨_, rfl⟩

theorem FurtherMembers.skipped {ms : Members} (h : FurtherMembers value ts ms r)
    (one : ∀ ts v r, value ts = .ok (v, r) → Skipped ts r) :
    r.length < ts.length ∧ ∀ n fuel, ts.length ≤ n → ms.length ≤ fuel →
      skipNested.furtherSkipped (skipNested n) fuel ts = .ok ((), r) := by
  induction h with
  | close r => exact ⟨by simp, fun n fuel _ _ => by cases fuel <;> rfl⟩
  | @next parts name ts r r' v ms _ hv _ ih =>
      obtain ⟨hshort, hskip⟩ := one ts v r hv
      refine ⟨by simp only [List.length_cons]; omega, fun n fuel hn hfuel => ?_⟩
      obtain _ | fuel := fuel
      · simp at hfuel
      · simp only [List.length_cons] at hn hfuel
        rw [skipNested.furtherSkipped, behindColon, hskip n (by omega)]
        exact ih.2 n fuel (by omega) (by omega)

theorem AllMembers.skipped {ms : Members} (h : AllMembers value ts ms r)
    (one : ∀ ts v r, value ts = .ok (v, r) → Skipped ts r) :
    r.length < ts.length ∧ ∀ n, ts.length ≤ n →
      skipNested.skipMembers (skipNested n) ts = .ok ((), r) := by
  cases h with
  | none r => exact ⟨by simp, fun n _ => rfl⟩
  | @some parts name ts r r' v ms _ hv hrest hfits =>
      obtain ⟨hshort, hskip⟩ := one ts v r hv
      obtain ⟨hshorter, hskips⟩ := hrest.skipped one
      simp only [List.length_cons]
      refine ⟨by omega, fun n hn => ?_⟩
      rw [skipNested.skipMembers, behindColon, hskip n (by omega)]
      exact hskips n r.length (by omega) hfits

/-- A value that can be read can be passed over. -/
theorem skipped_of_readWritten {depth : Nat} {w : Value}
    (h : readWritten depth ts = .ok (w, r)) : Skipped ts r := by
  induction depth generalizing ts w r with
  | zero =>
      cases WrittenAs.of_read h
      all_goals exact ⟨by simp, fun n _ => by cases n <;> rfl⟩
  | succ depth ih =>
      cases WrittenAs.of_read h with
      | @array _ ts _ xs hitems =>
          obtain ⟨hshort, hskips⟩ := hitems.skipped fun _ _ _ hx => ih hx
          refine ⟨by simp only [List.length_cons]; omega, fun n hn => ?_⟩
          obtain _ | n := n
          · simp at hn
          · obtain ⟨us, hus⟩ := hskips n (by simpa using hn)
            rw [skipNested, hus]
            rfl
      | @object _ ts _ ms hmembers =>
          obtain ⟨hshort, hskips⟩ := hmembers.skipped fun _ _ _ hv => ih hv
          refine ⟨by simp only [List.length_cons]; omega, fun n hn => ?_⟩
          obtain _ | n := n
          · simp at hn
          · rw [skipNested]
            exact hskips n (by simpa using hn)
      | _ => exact ⟨by simp, fun n _ => by cases n <;> rfl⟩

theorem skipValue_of_readWritten {depth : Nat} {w : Value}
    (h : readWritten depth ts = .ok (w, r)) : skipValue ts = .ok ((), r) :=
  (skipped_of_readWritten h).2 ts.length le_rfl

end Skipping

/-! ## Codecs -/

namespace Codec

variable {α β : Type}

/--
Where a value can be read that repeats no name, a text is read as the value is,
up to the same rest, or neither is read.
-/
def Agrees (c : Codec α) : Prop :=
  ∀ depth ts w r, readWritten depth ts = .ok (w, r) → w.NamesOnce →
    (c.ofTokens depth ts).toOption = (c.ofValue w.ordered).toOption.map (·, r)

theorem agrees_text : text.Agrees := by
  intro depth ts w r h _
  cases WrittenAs.of_read h with
  | string depth r decoded =>
      simp only [text, decoded, Value.ordered]
      rfl
  | _ => rfl

theorem agrees_signed : signed.Agrees := by
  intro depth ts w r h _
  cases WrittenAs.of_read h with
  | @number _ t n r decoded =>
      simp only [signed, decoded, Value.ordered, Success.toOption_bind, Success.toOption_ok,
        Option.bind_some]
      cases signedOfNumber n <;> rfl
  | _ => rfl

theorem agrees_value : value.Agrees := by
  intro depth ts w r h _
  simp only [value, readValue_eq_written, h]
  rfl

theorem Agrees.map {c : Codec α} (hc : c.Agrees) (f : α → β) : (c.map f).Agrees := by
  intro depth ts w r h honce
  simp only [Codec.map, Success.toOption_map, hc depth ts w r h honce, Option.map_map]
  rfl

theorem Agrees.optional {c : Codec α} (hc : c.Agrees) : (optional c).Agrees := by
  intro depth ts w r h honce
  have hagree := hc depth ts w r h honce
  cases WrittenAs.of_read h with
  | null => rfl
  | object =>
      simp only [Codec.optional, ordered_object, Success.toOption_map] at hagree ⊢
      rw [hagree, Option.map_map, Option.map_map]
      rfl
  | _ =>
      simp only [Codec.optional, Value.ordered, Success.toOption_map] at hagree ⊢
      rw [hagree, Option.map_map, Option.map_map]
      rfl

section List

variable {item : List Token → Except Fault (Taken Value)}
variable {item' : List Token → Except Fault (Taken β)} {f : Value → Option β}
variable {ts r : List Token} {ws : List Value}

/-- One item is read as `f` takes it, and the items behind it too. -/
theorem toOption_oneItem {w : Value} (fuel : List Token → Nat) {r' : List Token}
    (hfirst : (item' ts).toOption = (f w).map (·, r))
    (hmore : (furtherItems item' (fuel r) r).toOption = (ws.mapM f).map (·, r')) :
    (do
      let (x, r) ← item' ts
      let (xs, r) ← furtherItems item' (fuel r) r
      .ok (x :: xs, r) : Except Fault (Taken (List β))).toOption =
      ((w :: ws).mapM f).map (·, r') := by
  rw [Success.toOption_bind, hfirst, List.mapM_cons]
  cases f w with
  | none => rfl
  | some x =>
      simp only [Option.map_some, Option.bind_some, Success.toOption_bind, hmore]
      cases ws.mapM f <;> rfl

theorem toOption_furtherItems (h : FurtherItems item ts ws r)
    (one : ∀ w ∈ ws, ∀ ts r, item ts = .ok (w, r) → (item' ts).toOption = (f w).map (·, r))
    {fuel : Nat} (fits : ws.length ≤ fuel) :
    (furtherItems item' fuel ts).toOption = (ws.mapM f).map (·, r) := by
  induction h generalizing fuel with
  | close r => cases fuel <;> rfl
  | @next ts r r' w ws hw _ ih =>
      obtain _ | fuel := fuel
      · simp at fits
      · obtain ⟨hfirst, hrest⟩ := List.forall_mem_cons.1 one
        exact toOption_oneItem (fun _ => fuel) (hfirst ts r hw)
          (ih hrest (Nat.le_of_succ_le_succ fits))

/-- The items of a list are read as `f` takes them if each of them is. -/
theorem toOption_items (h : AllItems item ts ws r)
    (one : ∀ w ∈ ws, ∀ ts r, item ts = .ok (w, r) → (item' ts).toOption = (f w).map (·, r)) :
    (items item' ts).toOption = (ws.mapM f).map (·, r) := by
  cases h with
  | none r => rfl
  | @some ts r r' w ws opens hw hfurther fits =>
      obtain ⟨hfirst, hrest⟩ := List.forall_mem_cons.1 one
      rw [items_of_opens opens]
      exact toOption_oneItem List.length (hfirst ts r hw)
        (toOption_furtherItems hfurther hrest fits)

end List

theorem Agrees.list {c : Codec α} (hc : c.Agrees) : (list c).Agrees := by
  intro depth ts w r h honce
  cases WrittenAs.of_read h with
  | @array depth ts _ ws hitems =>
      cases honce with
      | array hws =>
          simp only [Codec.list, Value.ordered, orderedItems_eq_map, List.mapM_map,
            Success.toOption_mapM]
          exact toOption_items hitems fun w hw ts r hread => hc depth ts w r hread (hws w hw)
  | null depth => cases depth <;> rfl
  | bool depth => cases depth <;> rfl
  | number depth => cases depth <;> rfl
  | string depth => cases depth <;> rfl
  | object => rfl

end Codec

/-! ## Records -/

namespace Field

variable {δ : Type} {f g : Field δ} {fields : List (Field δ)}

/-- Two fields have different parts of a draft. -/
structure Apart (f g : Field δ) : Prop where
  commute : ∀ v w c d, f.codec.ofValue v = .ok c → g.codec.ofValue w = .ok d →
    ∀ x, c (d x) = d (c x)
  keeps : ∀ v c, f.codec.ofValue v = .ok c → ∀ x, g.isSet (c x) = g.isSet x
  kept : ∀ w d, g.codec.ofValue w = .ok d → ∀ x, f.isSet (d x) = f.isSet x

theorem Apart.symm (h : f.Apart g) : g.Apart f where
  commute v w c d hc hd x := (h.commute w v d c hd hc x).symm
  keeps := h.kept
  kept := h.keeps

instance : Std.Symm (Apart (δ := δ)) := ⟨fun _ _ h => h.symm⟩

/-- Two fields that are read into different parts of a draft. -/
theorem apart_of_map {α β : Type} {c : Codec α} {d : Codec β} {set : α → δ → δ}
    {put : β → δ → δ} (hf : f.codec = c.map set) (hg : g.codec = d.map put)
    (commute : ∀ x y s, set x (put y s) = put y (set x s))
    (keeps : ∀ x s, g.isSet (set x s) = g.isSet s)
    (kept : ∀ y s, f.isSet (put y s) = f.isSet s) : f.Apart g where
  commute v w _ _ hset hput s := by
    rw [hf] at hset
    rw [hg] at hput
    obtain ⟨x, -, rfl⟩ := Success.of_map hset
    obtain ⟨y, -, rfl⟩ := Success.of_map hput
    exact commute x y s
  keeps v _ hset s := by
    rw [hf] at hset
    obtain ⟨x, -, rfl⟩ := Success.of_map hset
    exact keeps x s
  kept w _ hput s := by
    rw [hg] at hput
    obtain ⟨y, -, rfl⟩ := Success.of_map hput
    exact kept y s

theorem apart_of_find? (apart : fields.Pairwise Apart) {m n : String}
    (hf : fields.find? (·.name = m) = some f) (hg : fields.find? (·.name = n) = some g)
    (hne : m ≠ n) : f.Apart g := by
  refine apart.forall (List.mem_of_find?_eq_some hf) (List.mem_of_find?_eq_some hg) ?_
  rintro rfl
  have hm := List.find?_some hf
  have hn := List.find?_some hg
  exact hne ((of_decide_eq_true hm).symm.trans (of_decide_eq_true hn))

theorem visitMember_of_none {draft : δ} {m : String × Value}
    (hf : fields.find? (·.name = m.1) = none) : visitMember fields draft m = .ok draft := by
  rw [visitMember, hf]

theorem visitMember_of_some {draft : δ} {m : String × Value}
    (hf : fields.find? (·.name = m.1) = some f) :
    visitMember fields draft m = (f.codec.ofValue m.2).map (· draft) := by
  simp only [visitMember, hf]
  cases f.codec.ofValue m.2 <;> rfl

theorem toOption_visitMember_comm (apart : fields.Pairwise Apart) {m n : String × Value}
    (hne : m.1 ≠ n.1) (draft : δ) :
    ((visitMember fields draft m).toOption.bind fun d => (visitMember fields d n).toOption) =
      (visitMember fields draft n).toOption.bind fun d =>
        (visitMember fields d m).toOption := by
  cases hf : fields.find? (·.name = m.1) with
  | none => simp [visitMember_of_none hf]
  | some f =>
      cases hg : fields.find? (·.name = n.1) with
      | none => simp [visitMember_of_none hg]
      | some g =>
          have hapart := apart_of_find? apart hf hg hne
          simp only [visitMember_of_some hf, visitMember_of_some hg, Success.toOption_map]
          cases hc : f.codec.ofValue m.2 with
          | error e => cases g.codec.ofValue n.2 <;> rfl
          | ok c =>
              cases hd : g.codec.ofValue n.2 with
              | error e => rfl
              | ok d => exact congrArg some (hapart.commute _ _ c d hc hd draft).symm

/-- Members of different names may be visited in any order. -/
theorem toOption_foldlM_visitMember_perm (apart : fields.Pairwise Apart)
    {ms ms' : Members} (hperm : ms.Perm ms') (names : (ms.map Prod.fst).Nodup) (draft : δ) :
    (ms.foldlM (visitMember fields) draft).toOption =
      (ms'.foldlM (visitMember fields) draft).toOption := by
  rw [Success.toOption_foldlM, Success.toOption_foldlM]
  refine hperm.foldl_eq' (fun m hm n hn o => ?_) _
  by_cases heq : m = n
  · rw [heq]
  · have hne : m.1 ≠ n.1 := mt (List.inj_on_of_nodup_map names hm hn) heq
    cases o with
    | none => rfl
    | some draft => exact toOption_visitMember_comm apart hne draft

/-- A member of another name does not set a field. -/
theorem isSet_of_visitMember (apart : fields.Pairwise Apart) {draft draft' : δ}
    {m : String × Value} {n : String} (hvisit : visitMember fields draft m = .ok draft')
    (hg : fields.find? (·.name = n) = some g) (hne : m.1 ≠ n) :
    g.isSet draft' = g.isSet draft := by
  cases hf : fields.find? (·.name = m.1) with
  | none =>
      rw [visitMember_of_none hf] at hvisit
      rw [Except.ok.inj hvisit]
  | some f =>
      rw [visitMember_of_some hf] at hvisit
      obtain ⟨change, hc, rfl⟩ := Success.of_map hvisit
      exact (apart_of_find? apart hf hg hne).keeps m.2 change hc draft

section Reading

variable {depth : Nat} {ts r : List Token} {draft : δ} {ms : Members}

/-- No field that one of the members has is set in the draft. -/
def Unset (fields : List (Field δ)) (draft : δ) (ms : Members) : Prop :=
  ∀ m ∈ ms, ∀ f, fields.find? (·.name = m.1) = some f → f.isSet draft = false

theorem Unset.visited (apart : fields.Pairwise Apart) {draft' : δ} {name : String}
    {v w : Value} (names : (((name, v) :: ms).map Prod.fst).Nodup)
    (h : Unset fields draft ((name, v) :: ms))
    (hvisit : visitMember fields draft (name, w) = .ok draft') : Unset fields draft' ms := by
  intro n hn g hg
  obtain ⟨hnew, -⟩ := List.nodup_cons.1 names
  have hne : name ≠ n.1 := by
    rintro rfl
    exact hnew (List.mem_map.2 ⟨n, hn, rfl⟩)
  rw [isSet_of_visitMember apart hvisit hg hne]
  exact h n (List.mem_cons_of_mem _ hn) g hg

/-- One member of an object is read from a text as it is taken from a value. -/
theorem toOption_readMember (agrees : ∀ f ∈ fields, f.codec.Agrees) {name : String}
    {v : Value} (h : readWritten depth ts = .ok (v, r)) (honce : v.NamesOnce)
    (unset : ∀ f, fields.find? (·.name = name) = some f → f.isSet draft = false) :
    (readMember fields depth draft name (.colon :: ts)).toOption =
      (visitMember fields draft (name, v.ordered)).toOption.map (·, r) := by
  cases hf : fields.find? (·.name = name) with
  | none =>
      simp only [readMember, hf, behindColon, skipValue_of_readWritten h,
        visitMember_of_none (m := (name, v.ordered)) hf]
      rfl
  | some f =>
      have hagree := agrees f (List.mem_of_find?_eq_some hf) depth ts v r h honce
      simp only [readMember, hf, unset f hf, Bool.false_eq_true, if_false, behindColon,
        Success.toOption_bind, hagree, visitMember_of_some (m := (name, v.ordered)) hf,
        Success.toOption_map]
      cases f.codec.ofValue v.ordered <;> rfl

variable (agrees : ∀ f ∈ fields, f.codec.Agrees) (apart : fields.Pairwise Apart)
include agrees apart

/--
If the members behind the first one are read as they are visited, so are all.  A
text that sets a field again is refused, and therefore no field of the members to
come may be set.
-/
theorem toOption_oneMember {parts : List StringPart} {name : String} {r' : List Token}
    {v : Value} {next : Taken δ → Except Fault (Taken δ)}
    (hname : decodeString parts = .ok name) (h : readWritten depth ts = .ok (v, r))
    (names : (((name, v) :: ms).map Prod.fst).Nodup)
    (once : ∀ m ∈ (name, v) :: ms, m.2.NamesOnce)
    (unset : Unset fields draft ((name, v) :: ms))
    (hnext : ∀ draft', Unset fields draft' ms →
      (next (draft', r)).toOption =
        ((ms.map (Prod.map id Value.ordered)).foldlM (visitMember fields)
          draft').toOption.map (·, r')) :
    (oneMember (readMember fields depth) draft (.string parts :: .colon :: ts) >>=
        next).toOption =
      ((((name, v) :: ms).map (Prod.map id Value.ordered)).foldlM (visitMember fields)
        draft).toOption.map (·, r') := by
  obtain ⟨hv, -⟩ := List.forall_mem_cons.1 once
  obtain ⟨hset, -⟩ := List.forall_mem_cons.1 unset
  have hone : (readMember fields depth draft name (.colon :: ts)).toOption =
      (visitMember fields draft (name, v.ordered)).toOption.map (·, r) :=
    toOption_readMember agrees h hv hset
  rw [List.map_cons, List.foldlM_cons, Success.toOption_bind, Success.toOption_bind, oneMember,
    hname]
  change ((readMember fields depth draft name (.colon :: ts)).toOption.bind _) = _
  rw [hone]
  change _ = ((visitMember fields draft (name, v.ordered)).toOption.bind _).map _
  cases hvisit : visitMember fields draft (name, v.ordered) with
  | error e => rfl
  | ok draft' => exact hnext draft' (unset.visited apart names hvisit)

theorem toOption_furtherMembers (h : FurtherMembers (readWritten depth) ts ms r)
    (names : (ms.map Prod.fst).Nodup) (once : ∀ m ∈ ms, m.2.NamesOnce)
    (unset : Unset fields draft ms) {fuel : Nat} (fits : ms.length ≤ fuel) :
    (furtherMembers (readMember fields depth) fuel draft ts).toOption =
      ((ms.map (Prod.map id Value.ordered)).foldlM (visitMember fields)
        draft).toOption.map (·, r) := by
  induction h generalizing draft fuel with
  | close r => cases fuel <;> rfl
  | @next parts name ts r r' v ms hname hv _ ih =>
      obtain _ | fuel := fuel
      · simp at fits
      · refine toOption_oneMember agrees apart hname hv names once unset fun draft' hunset => ?_
        exact ih (List.nodup_cons.1 names).2 (List.forall_mem_cons.1 once).2 hunset
          (Nat.le_of_succ_le_succ fits)

/-- The members of an object are read from a text as they are taken from a value. -/
theorem toOption_members (h : AllMembers (readWritten depth) ts ms r)
    (names : (ms.map Prod.fst).Nodup) (once : ∀ m ∈ ms, m.2.NamesOnce)
    (unset : Unset fields draft ms) :
    (members (readMember fields depth) draft ts).toOption =
      ((orderedObject ms).foldlM (visitMember fields) draft).toOption.map (·, r) := by
  have hnames : ((ms.map (Prod.map id Value.ordered)).map Prod.fst).Nodup := by
    rwa [List.map_map]
  rw [orderedObject, toOption_foldlM_visitMember_perm apart (inOrder_perm hnames)
    (((inOrder_perm hnames).map Prod.fst).nodup_iff.2 hnames)]
  cases h with
  | none r => rfl
  | @some parts name ts r r' v ms hname hv hrest fits =>
      refine toOption_oneMember agrees apart hname hv names once unset fun draft' hunset => ?_
      exact toOption_furtherMembers agrees apart hrest (List.nodup_cons.1 names).2
        (List.forall_mem_cons.1 once).2 hunset fits

end Reading

section Items

variable {depth : Nat} {ts r : List Token} {draft : δ} {ws : List Value}

theorem toOption_visitItems_nil (draft : δ) (fields : List (Field δ)) :
    (visitItems draft fields []).toOption =
      if fields.all (·.hasDefault) then some draft else none := by
  induction fields with
  | nil => rfl
  | cons f fs ih =>
      rw [visitItems, List.all_cons]
      cases f.hasDefault with
      | true => exact ih
      | false => rfl

theorem toOption_readMissing (draft : δ) (fields : List (Field δ)) (r : List Token) :
    (readMissing draft fields r).toOption =
      (visitItems draft fields []).toOption.map (·, r) := by
  rw [toOption_visitItems_nil, readMissing]
  split <;> rfl

theorem toOption_readFurtherItems (agrees : ∀ f ∈ fields, f.codec.Agrees)
    (h : FurtherItems (readWritten depth) ts ws r) (once : ∀ w ∈ ws, w.NamesOnce) :
    (readFurtherItems depth draft fields ts).toOption =
      (visitItems draft fields (ws.map Value.ordered)).toOption.map (·, r) := by
  induction h generalizing draft fields with
  | close r =>
      rw [List.map_nil, ← toOption_readMissing]
      cases fields <;> rfl
  | @next ts r r' w ws hw _ ih =>
      obtain ⟨hfirst, hrest⟩ := List.forall_mem_cons.1 once
      cases fields with
      | nil => rfl
      | cons f fs =>
          obtain ⟨hf, hfs⟩ := List.forall_mem_cons.1 agrees
          rw [readFurtherItems, List.map_cons, visitItems, Success.toOption_bind,
            Success.toOption_bind, hf depth ts w r hw hfirst]
          cases f.codec.ofValue w.ordered with
          | error e => rfl
          | ok change => exact ih hfs hrest

/-- The items of a list are read from a text as they are taken from a value. -/
theorem toOption_readItems (agrees : ∀ f ∈ fields, f.codec.Agrees)
    (h : AllItems (readWritten depth) ts ws r) (once : ∀ w ∈ ws, w.NamesOnce) :
    (readItems depth draft fields ts).toOption =
      (visitItems draft fields (ws.map Value.ordered)).toOption.map (·, r) := by
  cases h with
  | none r =>
      rw [List.map_nil, ← toOption_readMissing]
      cases fields <;> rfl
  | @some ts r r' w ws opens hw hfurther fits =>
      obtain ⟨hfirst, hrest⟩ := List.forall_mem_cons.1 once
      cases fields with
      | nil =>
          rw [readItems]
          · rfl
          · exact opens
      | cons f fs =>
          obtain ⟨hf, hfs⟩ := List.forall_mem_cons.1 agrees
          rw [readItems, List.map_cons, visitItems, Success.toOption_bind,
            Success.toOption_bind, hf depth ts w r hw hfirst]
          · cases f.codec.ofValue w.ordered with
            | error e => rfl
            | ok change => exact toOption_readFurtherItems hfs hfurther hrest
          · exact opens

end Items

end Field

namespace Codec

variable {δ ρ : Type} {fields : List (Field δ)} {empty : δ}

/-- A record agrees if its fields do, have different parts of the draft and are not set at first. -/
theorem Agrees.record (agrees : ∀ f ∈ fields, f.codec.Agrees)
    (apart : fields.Pairwise Field.Apart) (unset : ∀ f ∈ fields, f.isSet empty = false)
    (finish : δ → Except Fault ρ) : (record fields empty finish).Agrees := by
  intro depth ts w r h honce
  cases WrittenAs.of_read h with
  | @array depth ts _ ws hitems =>
      cases honce with
      | array once =>
          have hread : (Field.readItems depth empty fields ts).toOption = _ :=
            Field.toOption_readItems agrees hitems once
          simp only [Codec.record, Value.ordered, orderedItems_eq_map, Success.toOption_bind,
            hread]
          cases Field.visitItems empty fields (ws.map Value.ordered) with
          | error e => rfl
          | ok draft => exact Success.toOption_map _ _
  | @object depth ts _ ms hmembers =>
      cases honce with
      | object names once =>
          have hread : (members (Field.readMember fields depth) empty ts).toOption = _ :=
            Field.toOption_members agrees apart hmembers names once fun m _ f hf =>
              unset f (List.mem_of_find?_eq_some hf)
          simp only [Codec.record, ordered_object, Success.toOption_bind, hread]
          cases (orderedObject ms).foldlM (Field.visitMember fields) empty with
          | error e => rfl
          | ok draft => exact Success.toOption_map _ _
  | null depth => cases depth <;> rfl
  | bool depth => cases depth <;> rfl
  | number depth => cases depth <;> rfl
  | string depth => cases depth <;> rfl

/-- A whole text is read as the value that it writes, or neither is read. -/
theorem Agrees.toOption_ofText {c : Codec ρ} (hc : c.Agrees) {s : String} {v : Value}
    (hparse : parse s = .ok v) (honce : RepeatsNoName s) :
    (c.ofText s).toOption = (c.ofValue v).toOption := by
  obtain ⟨w, hwritten, hw⟩ := honce
  rw [parse_eq_written, hwritten] at hparse
  obtain rfl := Except.ok.inj hparse
  have hagree := hc maxDepth _ w [] (readText_eq_ok_iff.1 hwritten) hw
  rw [ofText, readText, Success.toOption_bind, hagree]
  cases c.ofValue w.ordered <;> rfl

end Codec
end Json
end Reclaim
