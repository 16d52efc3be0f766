import Reclaim.Proofs.Store.Etags
import Reclaim.Store.Entries

/-!
# Operations of the services

Clients ask nine kinds of operations of the services and their shards.  An
operation that is refused changes nothing that is stored, and any other has its
effect, which is a change of at most one entry or one record.  Whether the call is
remembered depends on where the operation looks at the injected failures: some
do so after the call has been remembered, and the others before.

Main result: `performed_perform` says all that an operation does.
-/

namespace Reclaim
namespace Store

/-- What a client asks of the services and of the records in their shards. -/
inductive Operation
  | resolve (account : Uuid)
  | list (directory : String)
  | get (path : String)
  | put (path : String) (body : List (Except String (List UInt8))) (size : Option Nat)
  | link (source target : String)
  | unlink (path : String) (allowUploads : Bool)
  | readRecord (slot : Slot)
  | writeRecord (slot : Slot) (value : Json.Value) (etag : Option String)
  | deleteRecord (slot : Slot)

/-- What the services answer to an operation that is not refused. -/
inductive Outcome
  | done
  | login (name : String)
  | listed (children : List (String × Entry))
  | data (bytes : List UInt8)
  | found (r : Stored)

namespace Services

/-- Performs an operation. -/
def perform (s : Services) : Operation → Services × Except Refusal Outcome
  | .resolve account => ((s.resolve account).1, (s.resolve account).2.map .login)
  | .list directory => ((s.list directory).1, (s.list directory).2.map .listed)
  | .get path => ((s.get path).1, (s.get path).2.map .data)
  | .put path body size =>
      ((s.put path body size).1, (s.put path body size).2.map fun _ => .done)
  | .link source target =>
      ((s.link source target).1, (s.link source target).2.map fun _ => .done)
  | .unlink path allow =>
      ((s.unlink path allow).1, (s.unlink path allow).2.map fun _ => .done)
  | .readRecord slot => ((s.readRecord slot).1, (s.readRecord slot).2.map .found)
  | .writeRecord slot value etag =>
      ((s.writeRecord slot value etag).1,
        (s.writeRecord slot value etag).2.map fun _ => .done)
  | .deleteRecord slot =>
      ((s.deleteRecord slot).1, (s.deleteRecord slot).2.map fun _ => .done)

/-- Performs operations one after the other. -/
def performAll (s : Services) :
    List Operation → Services × List (Operation × Except Refusal Outcome)
  | [] => (s, [])
  | op :: ops =>
      let (s, answer) := s.perform op
      let (s, rest) := s.performAll ops
      (s, (op, answer) :: rest)

end Services

/-! ## Calls that are remembered -/

/-- The parts of a body up to the first one that cannot be read. -/
def readableParts : List (Except String (List UInt8)) → List UInt8
  | .ok data :: r => data ++ readableParts r
  | _ => []

namespace Operation

/-- The call to be remembered. -/
def call : Operation → Call
  | resolve account => .resolve account
  | list directory => .list directory
  | get path => .get path
  | put path body _ => .put path (readableParts body).length
  | link source target => .link source target
  | unlink path allow => .unlink path allow
  | readRecord slot => .readRecord slot
  | writeRecord slot _ _ => .writeRecord slot
  | deleteRecord slot => .deleteRecord slot

/-- The texts for which failures may be injected. -/
def targets : Operation → List String
  | resolve account => [account.text]
  | list directory => [directory]
  | get path => [path]
  | put path _ _ => [path]
  | link source target => [source, target]
  | unlink path _ => [path]
  | readRecord slot => [slot.key]
  | writeRecord slot _ _ => [slot.key]
  | deleteRecord slot => [slot.key]

/-- The call is remembered before the operation looks at the failures. -/
def remembersFirst : Operation → Bool
  | resolve _ => true
  | unlink _ _ => true
  | deleteRecord _ => true
  | _ => false

/-- All parts of the body, if there is one, can be read. -/
def isReadable : Operation → Bool
  | put _ body _ => body.all Except.isOk
  | _ => true

/-- The body, if there is one, has the size that was announced. -/
def hasStatedSize : Operation → Bool
  | put _ body (some size) => size == (readableParts body).length
  | _ => true

end Operation

namespace Services

/-- A failure has been injected for an operation. -/
def hasFailure (s : Services) (op : Operation) : Bool :=
  op.targets.any fun target => (s.refusal? target).isSome

/-- The call of an operation is not remembered. -/
def forgets (s : Services) (op : Operation) : Bool :=
  !op.remembersFirst && (s.hasFailure op || !op.isReadable || !op.hasStatedSize)

end Services

/-! ## Effects -/

/-- A change of what is stored. -/
inductive Effect
  | nothing
  | setEntry (path : String) (e : Entry)
  | eraseEntry (path : String)
  | setRecord (slot : Slot) (r : Stored)
  | eraseRecord (slot : Slot)

namespace Effect

/-- Makes a change. -/
def apply (s : Services) : Effect → Services
  | nothing => s
  | setEntry path e => s.addEntry path e
  | eraseEntry path => { s with entries := s.entries.erase path }
  | setRecord slot r => { s with records := s.records.insert slot r }
  | eraseRecord slot => { s with records := s.records.erase slot }

section Apply

variable (s : Services) (change : Effect)

@[simp] theorem apply_calls : (change.apply s).calls = s.calls := by
  cases change <;> rfl

@[simp] theorem apply_failures : (change.apply s).failures = s.failures := by
  cases change <;> rfl

end Apply

end Effect

namespace Services

/-- The change that an operation makes unless it is refused. -/
def effect (s : Services) : Operation → Effect
  | .put path body _ => .setEntry path (.object (readableParts body))
  | .link source target =>
      match s.data? source with
      | some data => .setEntry target (.object data)
      | none => .nothing
  | .unlink path _ => .eraseEntry path
  | .writeRecord slot value _ => .setRecord slot (s.recordAfterWrite slot value)
  | .deleteRecord slot => .eraseRecord slot
  | _ => .nothing

end Services

/-! ## What an operation does -/

/--
How an operation may end: it is refused and forgotten, it is refused after its
call has been remembered, or it is accepted and has its effect.
-/
inductive Performed (s : Services) (op : Operation) :
    Services × Except Refusal Outcome → Prop
  | forgotten (e : Refusal) (h : s.forgets op = true) : Performed s op (s, .error e)
  | refused (e : Refusal) (h : s.forgets op = false) :
      Performed s op (s.log op.call, .error e)
  | accepted (outcome : Outcome) (h : s.forgets op = false) :
      Performed s op ((s.effect op).apply (s.log op.call), .ok outcome)

section Perform

variable {s : Services} {op : Operation}

theorem readBody_of_readable {body : List (Except String (List UInt8))}
    (h : body.all Except.isOk = true) :
    Services.readBody body = .ok (readableParts body) := by
  induction body with
  | nil => rfl
  | cons part rest ih =>
      cases part with
      | error text => cases h
      | ok data =>
          rw [Services.readBody, ih (by simpa [Except.isOk, Except.toBool] using h)]
          rfl

theorem exists_readBody_of_not_readable {body : List (Except String (List UInt8))}
    (h : body.all Except.isOk = false) :
    ∃ e, Services.readBody body = .error e := by
  induction body with
  | nil => cases h
  | cons part rest ih =>
      cases part with
      | error text => exact ⟨_, rfl⟩
      | ok data =>
          obtain ⟨e, he⟩ := ih (by simpa [Except.isOk, Except.toBool] using h)
          exact ⟨e, by rw [Services.readBody, he]; rfl⟩

theorem checkSize_isOk (path : String) (body : List (Except String (List UInt8)))
    (size : Option Nat) :
    (Services.checkSize path (readableParts body) size).isOk =
      (Operation.put path body size).hasStatedSize := by
  cases size with
  | none => rfl
  | some n =>
      by_cases h : n = (readableParts body).length <;>
        simp [Services.checkSize, Operation.hasStatedSize, h, Except.isOk, Except.toBool]

/-- Most operations are forgotten just if a failure has been injected for their target. -/
theorem forgets_of_target {target : String} (htargets : op.targets = [target])
    (hlate : op.remembersFirst = false) (hreadable : op.isReadable = true)
    (hsize : op.hasStatedSize = true) :
    s.forgets op = (s.refusal? target).isSome := by
  have hfailure : s.hasFailure op = (s.refusal? target).isSome := by
    rw [Services.hasFailure, htargets, List.any_cons, List.any_nil, Bool.or_false]
  rw [Services.forgets, hlate, hreadable, hsize, hfailure]
  simp

theorem performed_resolve (account : Uuid) :
    Performed s (.resolve account) (s.perform (.resolve account)) := by
  simp only [Services.perform, Services.resolve]
  split
  · exact .refused _ rfl
  · split
    · exact .accepted _ rfl
    · exact .refused _ rfl

theorem performed_list (directory : String) :
    Performed s (.list directory) (s.perform (.list directory)) := by
  have hforgets : s.forgets (.list directory) = (s.refusal? directory).isSome :=
    forgets_of_target rfl rfl rfl rfl
  simp only [Services.perform, Services.list]
  generalize s.refusal? directory = refusal at hforgets ⊢
  cases refusal with
  | some e => exact .forgotten _ hforgets
  | none => exact .accepted _ hforgets

theorem performed_get (path : String) :
    Performed s (.get path) (s.perform (.get path)) := by
  have hforgets : s.forgets (.get path) = (s.refusal? path).isSome :=
    forgets_of_target rfl rfl rfl rfl
  simp only [Services.perform, Services.get]
  generalize s.refusal? path = refusal at hforgets ⊢
  cases refusal with
  | some e => exact .forgotten _ hforgets
  | none =>
      simp only
      split
      · exact .accepted _ hforgets
      · exact .refused _ hforgets

theorem performed_put (path : String) (body : List (Except String (List UInt8)))
    (size : Option Nat) :
    Performed s (.put path body size) (s.perform (.put path body size)) := by
  have hforgets : s.forgets (.put path body size) = ((s.refusal? path).isSome ||
      !(Operation.put path body size).isReadable ||
      !(Operation.put path body size).hasStatedSize) := by
    simp [Services.forgets, Services.hasFailure, Operation.targets, Operation.remembersFirst]
  have hsize := checkSize_isOk path body size
  simp only [Services.perform, Services.put]
  cases hrefusal : s.refusal? path with
  | some e =>
      rw [hrefusal] at hforgets
      exact .forgotten _ hforgets
  | none =>
      cases hreadable : (Operation.put path body size).isReadable with
      | false =>
          obtain ⟨e, he⟩ := exists_readBody_of_not_readable hreadable
          simp only [he]
          exact .forgotten _ (by rw [hforgets, hreadable]; simp)
      | true =>
          simp only [readBody_of_readable hreadable]
          rw [hrefusal, hreadable, ← hsize] at hforgets
          cases hcheck : Services.checkSize path (readableParts body) size with
          | error e => exact .forgotten _ (by rw [hforgets, hcheck]; rfl)
          | ok u => exact .accepted .done (by rw [hforgets, hcheck]; rfl)

theorem performed_link (source target : String) :
    Performed s (.link source target) (s.perform (.link source target)) := by
  have hforgets : s.forgets (.link source target) =
      ((s.refusal? source).or (s.refusal? target)).isSome := by
    simp [Services.forgets, Services.hasFailure, Operation.targets,
      Operation.remembersFirst, Operation.isReadable, Operation.hasStatedSize]
  have hdata : (s.log (.link source target)).data? source = s.data? source := rfl
  simp only [Services.perform, Services.link]
  generalize (s.refusal? source).or (s.refusal? target) = refusal at hforgets ⊢
  cases refusal with
  | some e => exact .forgotten _ hforgets
  | none =>
      simp only [hdata]
      cases hsource : s.data? source with
      | none => exact .refused _ hforgets
      | some data =>
          have heffect : s.effect (.link source target) =
              .setEntry target (.object data) := by
            simp only [Services.effect, hsource]
          have haccepted : Performed s (.link source target) (_, .ok .done) :=
            .accepted .done hforgets
          rwa [heffect] at haccepted

theorem performed_unlink (path : String) (allow : Bool) :
    Performed s (.unlink path allow) (s.perform (.unlink path allow)) := by
  simp only [Services.perform, Services.unlink]
  split
  · exact .refused _ rfl
  · exact .accepted .done rfl

theorem performed_readRecord (slot : Slot) :
    Performed s (.readRecord slot) (s.perform (.readRecord slot)) := by
  have hforgets : s.forgets (.readRecord slot) = (s.refusal? slot.key).isSome :=
    forgets_of_target rfl rfl rfl rfl
  simp only [Services.perform, Services.readRecord]
  generalize s.refusal? slot.key = refusal at hforgets ⊢
  cases refusal with
  | some e => exact .forgotten _ hforgets
  | none =>
      simp only
      split
      · exact .accepted _ hforgets
      · exact .refused _ hforgets

theorem performed_writeRecord (slot : Slot) (value : Json.Value) (etag : Option String) :
    Performed s (.writeRecord slot value etag) (s.perform (.writeRecord slot value etag)) := by
  have hforgets : s.forgets (.writeRecord slot value etag) =
      (s.refusal? slot.key).isSome :=
    forgets_of_target rfl rfl rfl rfl
  simp only [Services.perform, Services.writeRecord]
  generalize s.refusal? slot.key = refusal at hforgets ⊢
  cases refusal with
  | some e => exact .forgotten _ hforgets
  | none =>
      simp only
      split
      · exact .accepted .done hforgets
      · exact .refused _ hforgets

theorem performed_deleteRecord (slot : Slot) :
    Performed s (.deleteRecord slot) (s.perform (.deleteRecord slot)) := by
  simp only [Services.perform, Services.deleteRecord]
  split
  · exact .refused _ rfl
  · split
    · exact .accepted .done rfl
    · exact .refused _ rfl

/-- An operation ends in one of the three ways. -/
theorem performed_perform (s : Services) (op : Operation) :
    Performed s op (s.perform op) := by
  cases op with
  | resolve account => exact performed_resolve account
  | list directory => exact performed_list directory
  | get path => exact performed_get path
  | put path body size => exact performed_put path body size
  | link source target => exact performed_link source target
  | unlink path allow => exact performed_unlink path allow
  | readRecord slot => exact performed_readRecord slot
  | writeRecord slot value etag => exact performed_writeRecord slot value etag
  | deleteRecord slot => exact performed_deleteRecord slot

end Perform

end Store
end Reclaim
