/-
What stays when one error is put in front of another. Whether the fault of the new error is kept or only
its text, the chain has one more fault in front that tells all that the new error told (`Error.chain_context`).
So texts add up, and neither a kind nor a request context behind it is lost (`Error.context_composes`), however
many errors are put in front of one (`Error.message_contexts`, `Error.has_contexts`).
-/
import RowMapper.Error.Chain

namespace RowMapper.Error

variable {e c : Error} {shared : Bool} {kind : Kind}

theorem chain_ne_nil (e : Error) : e.chain.map Fault.message ≠ [] := by
  simp [chain]

/-- A single fault has its own text. -/
theorem message_of_causes (h : c.causes = []) : c.message = c.fault.message := by
  simp [message, chain, h]

/-- In front of a chain comes one fault with the text of the error that is put there, and it is the fault of
that error when this is a single one that nothing else holds. -/
theorem chain_context (e c : Error) (shared : Bool) :
    ∃ front : Fault, (e.context c shared).chain = front :: e.chain ∧ front.message = c.message ∧
      (shared = false → c.causes = [] → front = c.fault) := by
  unfold context
  split
  · rename_i hkept
    have hcauses : c.causes = [] := by simpa using (Bool.and_eq_true_iff.1 hkept).2
    exact ⟨c.fault, rfl, (message_of_causes hcauses).symm, fun _ _ => rfl⟩
  · rename_i hkept
    refine ⟨.note (.free c.message), rfl, rfl, fun hshared hcauses => absurd ?_ hkept⟩
    simp [hshared, hcauses]

theorem message_context (e c : Error) (shared : Bool) :
    (e.context c shared).message = c.message ++ ": " ++ e.message := by
  obtain ⟨front, hchain, hmessage, -⟩ := chain_context e c shared
  rw [message, hchain, List.map_cons, String.intercalate_cons_of_ne_nil (chain_ne_nil e), hmessage]
  rfl

/-- The kinds behind an error are kept. -/
theorem has_context (h : e.has kind = true) : (e.context c shared).has kind = true := by
  obtain ⟨front, hchain, -, -⟩ := chain_context e c shared
  rw [has, hchain, List.any_cons, Bool.or_eq_true]
  exact .inr h

theorem isSome_requestContext_context (h : e.requestContext.isSome = true) :
    (e.context c shared).requestContext.isSome = true := by
  obtain ⟨front, hchain, -, -⟩ := chain_context e c shared
  rw [requestContext, hchain, List.findSome?_cons]
  split
  · rfl
  · exact h

/-- Errors compose. Put in front of another, an error adds its text; the kinds of the other stay, and so does
that it tells of a request. A single fault that nothing else holds keeps its own kinds too, and its own
request is the one that is told of. -/
theorem context_composes (e c : Error) (shared : Bool) :
    (e.context c shared).message = c.message ++ ": " ++ e.message ∧
      (∀ kind, e.has kind = true → (e.context c shared).has kind = true) ∧
      (e.requestContext.isSome = true → (e.context c shared).requestContext.isSome = true) ∧
      (shared = false → c.causes = [] →
        (∀ kind, c.has kind = true → (e.context c shared).has kind = true) ∧
          ∀ request, c.requestContext = some request →
            (e.context c shared).requestContext = some request) := by
  refine ⟨message_context e c shared, fun _ => has_context, isSome_requestContext_context, ?_⟩
  intro hshared hcauses
  obtain ⟨front, hchain, -, hfront⟩ := chain_context e c shared
  obtain rfl := hfront hshared hcauses
  have hsingle : c.chain = [c.fault] := by rw [chain, hcauses]
  constructor
  · intro kind hkind
    rw [has, hsingle, List.any_cons, List.any_nil, Bool.or_false] at hkind
    rw [has, hchain, List.any_cons, hkind, Bool.true_or]
  · intro request hrequest
    rw [requestContext, hsingle, List.findSome?_singleton] at hrequest
    rw [requestContext, hchain, List.findSome?_cons, hrequest]

/-- A request in front of a database fault that was put behind a remark: the text, the kind and the request. -/
theorem context_composes_request :
    let failed := (Error.database (.noColumn "ID")).remark (.nestedProperty "kids")
    let request : ErrorContext := { activity := some "applying a result map" }
    let e := failed.context ⟨.request request, []⟩
    e.message = "the error occurred while applying a result map.: " ++ failed.message ∧
      e.has .database = true ∧ e.requestContext = some request := by
  intro failed request e
  obtain ⟨hmessage, hkinds, -, hsingle⟩ := context_composes failed ⟨.request request, []⟩ false
  exact ⟨hmessage, hkinds .database rfl, (hsingle rfl rfl).2 request rfl⟩

/-! ## Any number of errors -/

/-- Errors put in front of an error one after the other, each with whether it is held elsewhere. -/
def contexts (e : Error) (front : List (Error × Bool)) : Error :=
  front.foldl (fun e c => e.context c.1 c.2) e

/-- The last one that was put in front is told first. -/
theorem message_contexts (e : Error) (front : List (Error × Bool)) :
    (e.contexts front).message =
      String.intercalate ": " ((front.map (·.1.message)).reverse ++ [e.message]) := by
  induction front generalizing e with
  | nil => simp [contexts]
  | cons c front ih =>
    rw [contexts, List.foldl_cons, ← contexts, ih, message_context, List.map_cons, List.reverse_cons,
      List.append_assoc, List.singleton_append]
    cases (front.map (·.1.message)).reverse with
    | nil => simp
    | cons text texts =>
      rw [String.intercalate_append_of_ne_nil (by simp) (by simp),
        String.intercalate_append_of_ne_nil (by simp) (by simp), String.intercalate_cons_cons]
      simp

theorem has_contexts (front : List (Error × Bool)) (h : e.has kind = true) :
    (e.contexts front).has kind = true := by
  induction front generalizing e with
  | nil => exact h
  | cons c front ih => exact ih (has_context h)

end RowMapper.Error
