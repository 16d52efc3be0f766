import Reclaim.Audit.Auditor
import Reclaim.Cruft.Collector
import Reclaim.Object.Collector
import Reclaim.Proofs.Dump.Strings
import Reclaim.Proofs.Placement.Picks
import Reclaim.Proofs.Stream.Through
import Reclaim.Proofs.Upload.Pass
import Reclaim.Proofs.Wire.Texts
import Reclaim.Upload.Collector

/-!
# The texts of actions

The texts in the line of an action come from the rows it was decided from: from
the texts of the rows, from the metadata that a payload or a row carries, and
from the inventory of storage nodes.  An engine keeps parts of rows only, so a
property of all these texts passes to the texts of all actions.

Main results: `oneLine_line` of each type of action, and `upholds_texts` of each
engine.
-/

namespace Reclaim

variable {P : String → Prop}

/-! ## Dead objects -/

namespace Object

/-- The strings of the metadata that the payload of a tombstone carries. -/
def payloadStrings (payload : Json.Value) : List String :=
  match payload.get? "_value" with
  | none => []
  | some v =>
      match Metadata.ofValue v with
      | .ok m => m.strings
      | .error _ => []

/-- The strings of the metadata in the payload of a row. -/
def Row.payloadStrings (r : Row) : List String :=
  match r.state with
  | .live => []
  | .dead payload _ => Object.payloadStrings payload

namespace Action

/-- The texts that the line of an action holds as they are. -/
def texts : Action → List String
  | deleteTombstone objectId _ shard => [objectId, shard]
  | removeReplica r =>
      [r.objectId, r.storageId, r.serverUuid.getD "", r.zoneUuid.getD "",
        r.owner]

theorem oneLine_line {a : Action} (h : ∀ s ∈ a.texts, Text.OneLine s) :
    Text.OneLine a.line := by
  cases a with
  | deleteTombstone objectId date shard =>
      simp only [texts, List.forall_mem_cons] at h
      apply Text.oneLine_join tab_ne_newline
      simp only [List.forall_mem_cons]
      exact ⟨by decide, h.1, date.printable_text.oneLine, h.2.1,
        List.forall_mem_nil _⟩
  | removeReplica r =>
      apply Text.oneLine_join tab_ne_newline
      exact List.forall_mem_cons.2 ⟨by decide, h⟩

end Action

theorem mem_payloadStrings_of_ofPayload
    {objectId : String} {date : Time.Instant} {payload : Json.Value}
    {replicas : List Replica}
    (h : Replica.ofPayload objectId date payload = .ok replicas) :
    ∀ r ∈ replicas, r.objectId = objectId ∧
      ∀ s ∈ r.storageId :: (r.serverUuid.toList ++ r.zoneUuid.toList ++
        [r.owner]), s ∈ payloadStrings payload := by
  rw [Replica.ofPayload] at h
  split at h
  · cases h
  · next v hv =>
      obtain ⟨m, hm, h⟩ := Success.of_bind h
      split at h
      · cases h
      · next owner howner =>
          obtain rfl := Except.ok.inj h
          intro r hr
          obtain ⟨l, hl, rfl⟩ := List.mem_map.1 hr
          refine ⟨rfl, ?_⟩
          have known : payloadStrings payload = m.strings := by
            rw [payloadStrings, hv]
            dsimp only
            rw [hm]
          have located := Metadata.location_subset_strings hl
          rw [known]
          intro s hs
          simp only [List.mem_cons, List.mem_append, List.not_mem_nil,
            or_false] at hs
          rcases hs with rfl | (hs | hs) | rfl
          · exact located (by simp [Location.strings])
          · exact located (by simp [Location.strings, hs])
          · exact located (by simp [Location.strings, hs])
          · exact Metadata.owner_mem_strings howner

/-- The texts of the tombstones of an object have a property. -/
structure Death.Fine (P : String → Prop) (d : Death) : Prop where
  pending : ∀ t ∈ d.pending, P t.shard ∧ ∀ s ∈ payloadStrings t.payload, P s
  surplus : ∀ x ∈ d.surplus, P x.shard

theorem Death.Fine.add
    {d : Death} {r : Row} (hd : d.Fine P) (texts : ∀ s ∈ r.texts, P s)
    (payload : ∀ s ∈ r.payloadStrings, P s) : (d.add r).1.Fine P := by
  obtain ⟨objectId, date, state⟩ := r
  cases state with
  | live =>
      simp only [Death.add, Death.addLive]
      split
      · exact hd
      · split
        · exact ⟨nofun, fun x hx => hd.surplus x (List.mem_filter.1 hx).1⟩
        · exact hd
  | dead value shard =>
      have hshard : P shard := texts shard (by simp [Row.texts])
      simp only [Death.add, Death.addDead]
      split
      · refine ⟨?_, hd.surplus⟩
        rintro t ⟨⟩
        exact ⟨hshard, payload⟩
      · split
        · exact hd
        · refine ⟨hd.pending, ?_⟩
          rw [List.forall_mem_append]
          exact ⟨hd.surplus, by simpa using hshard⟩

theorem Tombstone.texts_close
    {policy : GracePolicy} {objectId : String} {t : Tombstone}
    (empty : P "") (id : P objectId)
    (fine : P t.shard ∧ ∀ s ∈ payloadStrings t.payload, P s) :
    ∀ a ∈ (t.close policy objectId).1, ∀ s ∈ a.texts, P s := by
  rw [Tombstone.close]
  split
  · split
    · nofun
    · next replicas hreplicas =>
        refine List.forall_mem_cons.2 ⟨?_, ?_⟩
        · simpa [Action.texts] using ⟨id, fine.1⟩
        · intro a ha
          obtain ⟨r, hr, rfl⟩ := List.mem_map.1 ha
          obtain ⟨hid, known⟩ :=
            mem_payloadStrings_of_ofPayload hreplicas r hr
          have orEmpty : ∀ o : Option String, (∀ s ∈ o.toList, P s) →
              P (o.getD "") := by
            intro o ho
            cases o with
            | none => exact empty
            | some s => exact ho s List.mem_cons_self
          have fineOf := fun s hs => fine.2 s (known s hs)
          simp only [List.forall_mem_cons, List.forall_mem_append] at fineOf
          obtain ⟨storage, ⟨server, zone⟩, owner, -⟩ := fineOf
          simp only [Action.texts, List.forall_mem_cons]
          exact ⟨hid ▸ id, storage, orEmpty _ server, orEmpty _ zone, owner,
            List.forall_mem_nil _⟩
  · nofun

theorem Surplus.texts_close
    {policy : GracePolicy} {objectId : String} {x : Surplus}
    (id : P objectId) (shard : P x.shard) :
    ∀ a ∈ (x.close policy objectId).1, ∀ s ∈ a.texts, P s := by
  rw [Surplus.close]
  split
  · simpa [Action.texts] using ⟨id, shard⟩
  · nofun

theorem upholds_texts (policy : GracePolicy) (empty : P "") :
    (collector policy).Upholds (Stream.Grouping.Holding P (Death.Fine P))
      (fun r => ∀ s ∈ r.texts ++ r.payloadStrings, P s)
      (fun a => ∀ s ∈ a.texts, P s) := by
  have grouped : (grouping policy).Upholds
      (fun r => ∀ s ∈ r.texts ++ r.payloadStrings, P s) P (Death.Fine P)
      (fun a => ∀ s ∈ a.texts, P s) :=
    { group := fun r hr => hr r.objectId (by simp [Row.texts])
      empty := ⟨nofun, nofun⟩
      add := fun d r hd hr => by
        rw [List.forall_mem_append] at hr
        exact hd.add hr.1 hr.2
      close := fun name d named hd a ha => by
        obtain ⟨closed, hc, ha⟩ := List.mem_flatMap.1 ha
        rcases List.mem_append.1 hc with hc | hc
        · obtain ⟨t, ht, rfl⟩ := List.mem_map.1 hc
          exact Tombstone.texts_close empty named
            (hd.pending t (Option.mem_toList.1 ht)) a ha
        · obtain ⟨x, hx, rfl⟩ := List.mem_map.1 hc
          exact Surplus.texts_close named (hd.surplus x hx) a ha }
  exact grouped.engine

end Object

/-! ## Finished uploads -/

namespace Upload

theorem Verified.cleanups_subset_records (v : Verified) :
    v.cleanups ⊆ v.records := by
  intro r hr
  cases hf : v.finalizing with
  | none => simp [cleanups, hf] at hr
  | some f =>
      rw [cleanups_eq hf] at hr
      simpa [records, hf] using hr

/-- The records of the batch that is open have a property. -/
def Collector.Holding (Fine : Record → Prop) (c : Collector) : Prop :=
  ∀ r ∈ c.batcher.openRecords, Fine r

theorem Collector.holding_start {Fine : Record → Prop} :
    Collector.start.Holding Fine :=
  show ∀ r ∈ ([] : List Record), Fine r from nofun

theorem records_of_judgeClosed
    {policy : GracePolicy} {n : Counts} {closed : Option Batch}
    {Fine : Record → Prop} (fine : ∀ r ∈ Batcher.handedOut closed, Fine r) :
    ∀ v ∈ (Collector.judgeClosed policy n closed).2.toList,
      ∀ r ∈ v.records, Fine r := by
  intro v hv r hr
  obtain ⟨batch, rfl, judged⟩ := mem_judgeClosed hv
  exact fine r (mem_of_verify (verify_of_judge judged).1 r hr)

/-- A record goes to the batch that is open or closes one that is handed out. -/
theorem fine_of_push
    {b b' : Batcher} {r : Record} {closed : Option Batch}
    {Fine : Record → Prop} (hb : ∀ x ∈ b.openRecords, Fine x) (fine : Fine r)
    (hp : b.push r = .ok (b', closed)) :
    (∀ x ∈ Batcher.handedOut closed, Fine x) ∧
      ∀ x ∈ b'.openRecords, Fine x := by
  rw [← List.forall_mem_append, Batcher.push_records hp,
    List.forall_mem_append]
  exact ⟨hb, List.forall_mem_singleton.2 fine⟩

theorem upholds_batches (policy : GracePolicy) (Fine : Record → Prop) :
    (batches policy).Upholds (Collector.Holding Fine) Fine
      fun v => ∀ r ∈ v.records, Fine r where
  offer c r hc fine := by
    cases hp : c.batcher.push r with
    | error fault =>
        simp only [batches, Collector.offer, hp]
        exact hc
    | ok pushed =>
        obtain ⟨n, step⟩ := offer_of_push policy hp
        rw [step]
        exact (fine_of_push hc fine hp).2
  answer c r actions hc fine answered := by
    cases hp : c.batcher.push r with
    | error fault =>
        simp only [batches, Collector.offer, hp] at answered
        cases answered
    | ok pushed =>
        obtain ⟨n, step⟩ := offer_of_push policy hp
        rw [step] at answered
        obtain rfl := Except.ok.inj answered
        exact records_of_judgeClosed (fine_of_push hc fine hp).1
  finish c hc := by
    refine records_of_judgeClosed fun x hx => ?_
    split at hx
    · cases hx
    · next batch hb =>
        apply hc
        rw [Batcher.openRecords, hb]
        exact hx

/-- What is cleaned up are records of the stream. -/
theorem upholds_records (policy : GracePolicy) (Fine : Record → Prop) :
    (collector policy).Upholds (Collector.Holding Fine) Fine Fine :=
  (upholds_batches policy Fine).thenEach fun v hv r hr =>
    hv r (v.cleanups_subset_records hr)

end Upload

/-! ## Cruft -/

namespace Cruft

namespace Action

/-- The texts that the line of an action holds as they are. -/
def texts (a : Action) : List String :=
  [a.objectId, a.storageId, a.owner]

theorem oneLine_line {a : Action} (h : ∀ s ∈ a.texts, Text.OneLine s) :
    Text.OneLine a.line := by
  apply Text.oneLine_join tab_ne_newline
  exact List.forall_mem_cons.2 ⟨by decide, h⟩

end Action

theorem upholds_texts (policy : GracePolicy) :
    (collector policy).Upholds
      (Stream.Grouping.Holding (fun _ => True)
        fun f => ∀ a ∈ f.candidates, ∀ s ∈ a.texts, P s)
      (fun r => ∀ s ∈ r.texts, P s) (fun a => ∀ s ∈ a.texts, P s) := by
  have grouped : (grouping policy).Upholds (fun r => ∀ s ∈ r.texts, P s)
      (fun _ => True) (fun f => ∀ a ∈ f.candidates, ∀ s ∈ a.texts, P s)
      (fun a => ∀ s ∈ a.texts, P s) :=
    { group := fun _ _ => trivial
      empty := nofun
      add := fun f r hf hr => by
        cases r with
        | reference objectId => exact hf
        | stored objectId storageId owner date =>
            simp only [grouping, Files.add]
            split
            · refine List.forall_mem_append.2 ⟨hf, ?_⟩
              intro a ha
              obtain rfl := List.mem_singleton.1 ha
              exact hr
            · exact hf
      close := fun _ f _ hf => by
        simp only [grouping, Files.close]
        split
        · nofun
        · exact hf }
  exact grouped.engine

end Cruft

/-! ## Audit -/

namespace Audit

namespace Finding

/-- The texts that the line of a finding holds as they are. -/
def texts (f : Finding) : List String :=
  [f.objectId, f.owner, f.key] ++ f.missing

theorem oneLine_line {f : Finding} (h : ∀ s ∈ f.texts, Text.OneLine s) :
    Text.OneLine f.line := by
  have count : ∀ n : Nat, Text.OneLine (toString n) :=
    fun n => (Text.printable_toString_nat n).oneLine
  simp only [texts, List.forall_mem_append, List.forall_mem_cons] at h
  apply Text.oneLine_join tab_ne_newline
  simp only [List.forall_mem_cons]
  exact ⟨by decide, h.1.1, h.1.2.1, h.1.2.2.1, count _, count _,
    Text.oneLine_join (by decide) h.2, List.forall_mem_nil _⟩

end Finding

/-- The texts in the expected replicas of an object have a property. -/
structure Replicas.Fine (P : String → Prop) (r : Replicas) : Prop where
  source : ∀ o ∈ r.source, P o.1 ∧ P o.2
  expected : ∀ k ∈ r.expected.keys, P k

theorem Replicas.Fine.add
    {r : Replicas} {row : Row} (hr : r.Fine P) (texts : ∀ s ∈ row.texts, P s) :
    (r.add row).Fine P := by
  cases row with
  | stored objectId storageId => exact ⟨hr.source, hr.expected⟩
  | expected objectId storageId owner key =>
      simp only [Row.texts, List.forall_mem_cons] at texts
      obtain ⟨-, storage, howner, hkey, -⟩ := texts
      refine ⟨?_, ?_⟩
      · rintro o ⟨⟩
        cases hs : r.source with
        | none => exact ⟨howner, hkey⟩
        | some o => exact hr.source o hs
      · intro k hk
        rcases Sorted.SortedMap.mem_keys_insert.1 hk with rfl | hk
        · exact storage
        · exact hr.expected k hk

theorem upholds_texts (empty : P "") :
    auditor.Upholds (Stream.Grouping.Holding P (Replicas.Fine P))
      (fun r => ∀ s ∈ r.texts, P s) (fun f => ∀ s ∈ f.texts, P s) := by
  have grouped : grouping.Upholds (fun r => ∀ s ∈ r.texts, P s) P
      (Replicas.Fine P) (fun f => ∀ s ∈ f.texts, P s) :=
    { group := fun r hr => by
        cases r with
        | stored objectId storageId => exact hr objectId List.mem_cons_self
        | expected objectId storageId owner key =>
            exact hr objectId List.mem_cons_self
      empty := ⟨nofun, nofun⟩
      add := fun r row hr texts => hr.add texts
      close := fun name r named hr => by
        simp only [grouping, Replicas.close]
        split
        · nofun
        · split
          · nofun
          · have source : P (r.source.getD ("", "")).1 ∧
                P (r.source.getD ("", "")).2 := by
              cases hs : r.source with
              | none => exact ⟨empty, empty⟩
              | some o => exact hr.source o hs
            intro f hf
            obtain rfl := List.mem_singleton.1 hf
            simp only [Finding.texts, Replicas.finding,
              List.forall_mem_append, List.forall_mem_cons]
            refine ⟨⟨named, source.1, source.2, List.forall_mem_nil _⟩, ?_⟩
            exact fun k hk => hr.expected k (List.mem_filter.1 hk).1 }
  exact grouped.engine

end Audit

/-! ## Moves -/

namespace Placement

namespace Action

/-- The texts that the line of an action holds as they are. -/
def texts (a : Action) : List String :=
  [a.objectId, a.owner, a.source, a.target, a.shard, a.key]

theorem oneLine_line {a : Action} (h : ∀ s ∈ a.texts, Text.OneLine s) :
    Text.OneLine a.line := by
  apply Text.oneLine_join tab_ne_newline
  exact List.forall_mem_cons.2 ⟨by decide, h⟩

end Action

variable {digest : String → Nat} {v : Inventory} {row : Row}

/-- The moves so far have texts with a property. -/
def Plan.Fine (P : String → Prop) (p : Plan) : Prop :=
  ∀ a ∈ p.moves, ∀ s ∈ a.texts, P s

theorem Plan.fine_ofRow
    (empty : P "") (nodes : ∀ n ∈ v.nodes.pairs, P n.1)
    (texts : ∀ s ∈ row.texts ++ row.metadata.strings, P s) :
    (Plan.ofRow digest v row).Fine P := by
  intro a ha
  rw [Plan.moves_ofRow] at ha
  obtain ⟨p, hp, rfl⟩ := List.mem_map.1 ha
  have hsource : P p.source := by
    have hheld := Plan.misplaced_subset (sources_picks.subset (List.mem_map_of_mem hp))
    obtain ⟨l, hl, heq⟩ := List.mem_map.1 hheld
    apply texts
    apply List.mem_append_right
    apply Metadata.location_subset_strings hl
    simp [Location.strings, heq]
  have htarget : P p.node.1 := by
    have healthy := (List.mem_filter.1 (node_mem_of_mem_picks hp)).1
    exact nodes _ (List.mem_filter.1 healthy).1
  have howner : P (row.metadata.owner.getD "") := by
    cases ho : row.metadata.owner with
    | none => exact empty
    | some o =>
        exact texts o (List.mem_append_right _ (Metadata.owner_mem_strings ho))
  have hkey : P row.metadata.key :=
    texts _ (List.mem_append_right _ row.metadata.key_mem_strings)
  have hid : P row.objectId := texts _ (by simp [Row.texts])
  have hshard : P row.shard := texts _ (by simp [Row.texts])
  simp only [Action.texts, Row.moveOf, List.forall_mem_cons]
  exact ⟨hid, howner, hsource, htarget, hshard, hkey, List.forall_mem_nil _⟩

theorem upholds_texts
    (digest : String → Nat) {v : Inventory} (empty : P "")
    (nodes : ∀ n ∈ v.nodes.pairs, P n.1) :
    (planner digest v).Upholds (fun _ => True)
      (fun r => ∀ s ∈ r.texts ++ r.metadata.strings, P s)
      (fun a => ∀ s ∈ a.texts, P s) where
  offer _ _ _ _ := trivial
  answer _ r actions _ texts answered := by
    obtain rfl := Except.ok.inj answered
    exact Plan.fine_ofRow empty nodes texts
  finish _ _ := nofun

/-- The nodes of an inventory are among those it was made of. -/
theorem nodes_of_ofNodes
    {nodes : List Node} {evacuating : List String}
    (fine : ∀ n ∈ nodes, P n.storageId) :
    ∀ n ∈ (Inventory.ofNodes nodes evacuating).nodes.pairs, P n.1 := by
  intro n hn
  obtain ⟨m, hm, rfl⟩ :=
    List.mem_map.1 (Sorted.SortedMap.mem_of_mem_ofList hn)
  exact fine m hm

end Placement
end Reclaim
