import Reclaim.Proofs.Store.Operations

/-!
# The calls that are remembered

The services remember the calls that were made, so that it can be told
afterwards what a client has done.  Not all calls are remembered: operations that
look at the injected failures first forget the calls they refuse, and so does a
write of an object whose body is not as announced.  All other calls are remembered
once and in their order, also those that are refused for another reason.

Main results: `calls_perform` for one operation, and `calls_performAll_eq_iff` for
operations one after the other.
-/

namespace Reclaim
namespace Store

section Calls

variable {s t : Services} {op : Operation}

theorem calls_perform (s : Services) (op : Operation) :
    (s.perform op).1.calls =
      s.calls ++ if s.forgets op then [] else [op.call] := by
  have h := performed_perform s op
  generalize s.perform op = result at h ⊢
  cases h with
  | forgotten e h => simp [h]
  | refused e h => simp [h, Services.log]
  | accepted outcome h => simp [h, Services.log]

theorem failures_perform (s : Services) (op : Operation) :
    (s.perform op).1.failures = s.failures := by
  have h := performed_perform s op
  generalize s.perform op = result at h ⊢
  cases h with
  | forgotten e h => rfl
  | refused e h => rfl
  | accepted outcome h => exact Effect.apply_failures _ _

/-- A call that is forgotten is refused. -/
theorem exists_refusal_of_forgets (h : s.forgets op = true) :
    ∃ e, (s.perform op).2 = .error e := by
  have hperformed := performed_perform s op
  generalize s.perform op = result at hperformed ⊢
  cases hperformed with
  | forgotten e => exact ⟨e, rfl⟩
  | refused e => exact ⟨e, rfl⟩
  | accepted outcome hnot =>
      rw [h] at hnot
      cases hnot

theorem forgets_congr (h : t.failures = s.failures) (op : Operation) :
    t.forgets op = s.forgets op := by
  simp only [Services.forgets, Services.hasFailure, refusal?_congr h]

/-- What is remembered of operations depends on the failures at their start only. -/
theorem calls_performAll (s : Services) (ops : List Operation) :
    (s.performAll ops).1.calls =
      s.calls ++ (ops.filter fun op => !s.forgets op).map Operation.call := by
  induction ops generalizing s with
  | nil => exact (List.append_nil _).symm
  | cons op ops ih =>
      have hforgets := forgets_congr (failures_perform s op)
      simp only [Services.performAll, ih, hforgets, calls_perform, List.append_assoc]
      cases h : s.forgets op <;> simp [h]

/-- Of operations one after the other, those that are forgotten are refused. -/
theorem exists_refusal_of_mem_performAll {ops : List Operation}
    {p : Operation × Except Refusal Outcome} (hp : p ∈ (s.performAll ops).2)
    (h : s.forgets p.1 = true) : ∃ e, p.2 = .error e := by
  induction ops generalizing s with
  | nil => cases hp
  | cons op ops ih =>
      simp only [Services.performAll, List.mem_cons] at hp
      rcases hp with rfl | hp
      · exact exists_refusal_of_forgets h
      · exact ih hp ((forgets_congr (failures_perform s op) p.1).trans h)

/--
Of operations one after the other, all calls but the forgotten ones are
remembered, once and in their order.  So there is one remembered call for each
operation if and only if none is forgotten, that is if none of the lists, reads
and writes has an injected failure and no body differs from what was announced.
Forgotten calls are refused, so that each accepted one is remembered.
-/
theorem calls_performAll_eq_iff (s : Services) (ops : List Operation) :
    (s.performAll ops).1.calls =
        s.calls ++ (ops.filter fun op => !s.forgets op).map Operation.call ∧
      ((s.performAll ops).1.calls = s.calls ++ ops.map Operation.call ↔
        ∀ op ∈ ops, s.forgets op = false) ∧
      ∀ p ∈ (s.performAll ops).2, s.forgets p.1 = true → ∃ e, p.2 = .error e := by
  refine ⟨calls_performAll s ops, ?_, fun p => exists_refusal_of_mem_performAll⟩
  rw [calls_performAll, List.append_cancel_left_eq]
  constructor
  · intro h
    -- A list of fewer calls cannot be the list of all calls.
    have hlength := congrArg List.length h
    rw [List.length_map, List.length_map, List.length_filter_eq_length_iff] at hlength
    exact fun op hop => by simpa using hlength op hop
  · intro h
    rw [List.filter_eq_self.2 fun op hop => by rw [h op hop]; rfl]

/-- The list of a directory for which a failure has been injected is not remembered. -/
theorem not_forall_calls_remembered :
    ¬ ∀ (s : Services) (ops : List Operation), (∀ op ∈ ops, op.isReadable = true) →
      (s.performAll ops).1.calls = s.calls ++ ops.map Operation.call := by
  intro h
  have hlist := h (Services.injectFailure {} "/a") [.list "/a"]
    (List.forall_mem_singleton.2 rfl)
  have hforgotten : (Services.injectFailure {} "/a").forgets (.list "/a") = true := by decide
  rw [calls_performAll] at hlist
  simp [hforgotten] at hlist

end Calls

end Store
end Reclaim
