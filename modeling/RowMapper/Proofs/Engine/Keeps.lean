/-
What a computation with state keeps, however it ends: an invariant `I` of the state, a relation `R`
between the states before and after, a property `E` of the error it stops with, and a property `Q`
of the value it gives (`Keeps`). The rules follow the steps that runs are made of, so that a fact
about a run is put together from facts about its steps in the order of its text.
-/
import RowMapper.Engine.World
import Mathlib.Data.List.Forall2
import Mathlib.Order.Defs.Unbundled

namespace RowMapper

variable {ε σ τ α β : Type}

/-- An outcome is an error that satisfies `E` or a value that satisfies `Q`. -/
def Ends (E : ε → Prop) (Q : α → Prop) : Except ε α → Prop
  | .ok a => Q a
  | .error e => E e

/-- From a state that satisfies `I` a computation comes to one that does, along `R`, with an error
that satisfies `E` or a value that satisfies `Q`. -/
def Keeps (I : σ → Prop) (R : σ → σ → Prop) (E : ε → Prop) (Q : α → Prop)
    (run : ExceptT ε (StateM σ) α) : Prop :=
  ∀ s, I s → I (run.run s).2 ∧ R s (run.run s).2 ∧ Ends E Q (run.run s).1

/-- As `Keeps`, but from a state that satisfies `J` to one that satisfies `I`, with a property of the
value that depends on the state behind it. -/
def Leads (J I : σ → Prop) (R : σ → σ → Prop) (E : ε → Prop) (Q : σ → α → Prop)
    (run : ExceptT ε (StateM σ) α) : Prop :=
  ∀ s, J s → I (run.run s).2 ∧ R s (run.run s).2 ∧ Ends E (Q (run.run s).2) (run.run s).1

/-- The property of no value in particular. -/
abbrev Always (_ : α) : Prop := True

/-- Whatever the states before and after are. -/
abbrev Anyhow (_ _ : σ) : Prop := True

instance : Std.Refl (Anyhow (σ := σ)) := ⟨fun _ => trivial⟩

instance : IsTrans σ Anyhow := ⟨fun _ _ _ _ _ => trivial⟩

/-- Running out of a bound on the depth is allowed only if `x` holds; errors are allowed. -/
def Stop.Allowed (x : Prop) : Stop → Prop
  | .failed _ => True
  | .exhausted => x

theorem Ends.mapError {x : Prop} {Q : α → Prop} {outcome : Except Error α}
    (h : ∀ a, outcome = .ok a → Q a) : Ends (Stop.Allowed x) Q (outcome.mapError .failed) := by
  cases outcome with
  | error e => trivial
  | ok a => exact h a rfl

/-- Any outcome will do. -/
theorem Ends.allowed (outcome : Except Stop α) : Ends (Stop.Allowed True) Always outcome := by
  rcases outcome with (_ | _) | _ <;> trivial

/-! ## Outcomes of composed runs -/

theorem run_step (f : σ → Except Stop α × σ) (s : σ) : (Run.step f).run s = f s := rfl

theorem run_bind_ok {x : ExceptT ε (StateM σ) α} {f : α → ExceptT ε (StateM σ) β} {s t : σ} {a : α}
    (h : x.run s = (.ok a, t)) : (x >>= f).run s = (f a).run t := by
  show ((ExceptT.bindCont f (x.run s).1).run (x.run s).2 : _) = _
  rw [h]
  rfl

theorem run_bind_error {x : ExceptT ε (StateM σ) α} {f : α → ExceptT ε (StateM σ) β} {s t : σ}
    {e : ε} (h : x.run s = (.error e, t)) : (x >>= f).run s = (.error e, t) := by
  show ((ExceptT.bindCont f (x.run s).1).run (x.run s).2 : _) = _
  rw [h]
  rfl

/-- A sequence gives a value when both of its parts do. -/
theorem run_bind_eq_ok {x : ExceptT ε (StateM σ) α} {f : α → ExceptT ε (StateM σ) β} {s u : σ}
    {b : β} : (x >>= f).run s = (.ok b, u) ↔
      ∃ a t, x.run s = (.ok a, t) ∧ (f a).run t = (.ok b, u) := by
  cases h : x.run s with
  | mk outcome t =>
    cases outcome with
    | error e => rw [run_bind_error h]; exact ⟨nofun, nofun⟩
    | ok a =>
      rw [run_bind_ok h]
      refine ⟨fun hf => ⟨a, t, rfl, hf⟩, fun ⟨_, _, he, hf⟩ => ?_⟩
      cases he
      exact hf

theorem run_eq_of_toOption {run : ExceptT ε (StateM σ) α} {s : σ} {a : α}
    (h : (run.run s).1.toOption = some a) : run.run s = (.ok a, (run.run s).2) := by
  rcases hrun : run.run s with ⟨e | b, t⟩ <;> rw [hrun] at h <;> cases h
  rfl

theorem run_ofExcept_eq_ok {outcome : Except Error α} {s t : σ} {a : α} :
    (Run.ofExcept outcome : Run σ α).run s = (.ok a, t) ↔ outcome = .ok a ∧ t = s := by
  have hrun : (Run.ofExcept outcome : Run σ α).run s = (outcome.mapError .failed, s) := rfl
  rw [hrun]
  cases outcome with
  | error e => exact ⟨nofun, nofun⟩
  | ok b =>
    refine ⟨fun h => ?_, fun ⟨h, ht⟩ => ?_⟩
    · cases h; exact ⟨rfl, rfl⟩
    · cases h; cases ht; rfl

theorem run_gets_bind (f : σ → α) (k : α → Run σ β) (s : σ) :
    (Run.gets f >>= k).run s = (k (f s)).run s := run_bind_ok rfl

/-- What the first part of a sequence gives is all that the sequence depends on. -/
theorem run_bind_congr {x y : ExceptT ε (StateM σ) α} {f g : α → ExceptT ε (StateM σ) β} {s : σ}
    (hx : x.run s = y.run s) (hf : ∀ a t, x.run s = (.ok a, t) → (f a).run t = (g a).run t) :
    (x >>= f).run s = (y >>= g).run s := by
  cases h : x.run s with
  | mk outcome t =>
    cases outcome with
    | error e => rw [run_bind_error h, run_bind_error (hx ▸ h)]
    | ok a => rw [run_bind_ok h, run_bind_ok (hx ▸ h), hf a t h]

theorem run_mapError (f : σ → Error → Error) (run : Run σ α) (s : σ) :
    (Run.mapError f run).run s =
      ((run.run s).1.mapError (Stop.mapError (f (run.run s).2)), (run.run s).2) := rfl

theorem ends_mapError {x : Prop} {Q : α → Prop} {f : σ → Error → Error} {run : Run σ α} {s : σ}
    (h : Ends (Stop.Allowed x) Q (run.run s).1) :
    Ends (Stop.Allowed x) Q ((Run.mapError f run).run s).1 := by
  rw [run_mapError]
  rcases hr : run.run s with ⟨(e | _) | a, t⟩ <;> rw [hr] at h
  · trivial
  · exact h
  · exact h

/-- A loop that gives a list gives for each item what its step gives from a later state. -/
theorem forall₂_of_mapM {S : σ → σ → Prop} [Std.Refl S] [IsTrans σ S] {xs : List α}
    {f : α → ExceptT ε (StateM σ) β} (hf : ∀ x s, S s ((f x).run s).2) {ys : List β} {s t : σ}
    (h : (xs.mapM f).run s = (.ok ys, t)) :
    List.Forall₂ (fun x y => ∃ u v, S s u ∧ (f x).run u = (.ok y, v)) xs ys := by
  induction xs generalizing ys s with
  | nil => cases h; exact .nil
  | cons x xs ih =>
    rw [List.mapM_cons] at h
    obtain ⟨y, u, hy, h⟩ := run_bind_eq_ok.1 h
    obtain ⟨rest, v, hr, h⟩ := run_bind_eq_ok.1 h
    cases h
    have hu : S s u := by
      have := hf x s
      rwa [hy] at this
    refine .cons ⟨s, u, Std.Refl.refl s, hy⟩ ((ih hr).imp fun _ _ ⟨u', v', hs, hrun⟩ => ?_)
    exact ⟨u', v', IsTrans.trans _ _ _ hu hs, hrun⟩

section

variable {I J K : σ → Prop} {R : σ → σ → Prop} {E : ε → Prop}

theorem Keeps.leads {Q : α → Prop} {run : ExceptT ε (StateM σ) α} (h : Keeps J R E Q run)
    (hi : ∀ s, J s → I s) : Leads J I R E (fun _ => Q) run := by
  intro s hs
  obtain ⟨hj, hr, ho⟩ := h s hs
  exact ⟨hi _ hj, hr, ho⟩

theorem Leads.weaken {R' : σ → σ → Prop} {Q : σ → α → Prop} {run : ExceptT ε (StateM σ) α}
    (h : Leads J I R E Q run) (hr : ∀ s t, R s t → R' s t) : Leads J I R' E Q run := by
  intro s hs
  obtain ⟨hi, hrel, ho⟩ := h s hs
  exact ⟨hi, hr _ _ hrel, ho⟩

/-- The first part of a sequence may stop, so that the state between satisfies `I` too. -/
theorem Leads.bind [IsTrans σ R] {Q : σ → α → Prop} {Q' : σ → β → Prop}
    {x : ExceptT ε (StateM σ) α} {f : α → ExceptT ε (StateM σ) β}
    (hx : Leads J K R E Q x) (hi : ∀ s, K s → I s)
    (hf : ∀ a, Leads (fun s => K s ∧ Q s a) I R E Q' (f a)) : Leads J I R E Q' (x >>= f) := by
  intro s hs
  obtain ⟨hk, hr, ho⟩ := hx s hs
  cases hrun : x.run s with
  | mk outcome t =>
    rw [hrun] at hk hr ho
    cases outcome with
    | error e =>
      rw [run_bind_error hrun]
      exact ⟨hi t hk, hr, ho⟩
    | ok a =>
      rw [run_bind_ok hrun]
      obtain ⟨hi', hr', ho'⟩ := hf a t ⟨hk, ho⟩
      exact ⟨hi', IsTrans.trans _ _ _ hr hr', ho'⟩

/-- A first part that keeps what holds before it. -/
theorem Keeps.bind_leads [IsTrans σ R] {Q : α → Prop} {Q' : σ → β → Prop}
    {x : ExceptT ε (StateM σ) α} {f : α → ExceptT ε (StateM σ) β} (hx : Keeps J R E Q x)
    (hi : ∀ s, J s → I s) (hf : ∀ a, Q a → Leads J I R E Q' (f a)) : Leads J I R E Q' (x >>= f) :=
  Leads.bind (hx.leads fun _ hs => hs) hi fun a s hs => hf a hs.2 s hs.1

end

namespace Keeps

variable {I : σ → Prop} {R : σ → σ → Prop} {E : ε → Prop} {Q : α → Prop} {Q' : β → Prop}

/-! ## Steps in sequence -/

theorem mono {run : ExceptT ε (StateM σ) α} {P : α → Prop} (h : Keeps I R E P run)
    (hq : ∀ a, P a → Q a) : Keeps I R E Q run := by
  intro s hs
  obtain ⟨hi, hr, ho⟩ := h s hs
  refine ⟨hi, hr, ?_⟩
  cases hrun : (run.run s).1 with
  | error e => rw [hrun] at ho; exact ho
  | ok a => rw [hrun] at ho; exact hq a ho

theorem weaken {R' : σ → σ → Prop} {run : ExceptT ε (StateM σ) α} (h : Keeps I R E Q run)
    (hr : ∀ s t, R s t → R' s t) : Keeps I R' E Q run :=
  (h.leads fun _ hs => hs).weaken hr

theorem always {run : ExceptT ε (StateM σ) α} (h : Keeps I R E Q run) : Keeps I R E Always run :=
  h.mono fun _ _ => trivial

theorem pure [Std.Refl R] {a : α} (h : Q a) : Keeps I R E Q (Pure.pure a) :=
  fun s hs => ⟨hs, Std.Refl.refl s, h⟩

theorem throw [Std.Refl R] {e : ε} (h : E e) : Keeps I R E Q (MonadExcept.throw e) :=
  fun s hs => ⟨hs, Std.Refl.refl s, h⟩

theorem bind [IsTrans σ R] {x : ExceptT ε (StateM σ) α} {f : α → ExceptT ε (StateM σ) β}
    (hx : Keeps I R E Q x) (hf : ∀ a, Q a → Keeps I R E Q' (f a)) :
    Keeps I R E Q' (x >>= f) :=
  bind_leads hx (fun _ hs => hs) fun a ha => (hf a ha).leads fun _ hs => hs

theorem forM [Std.Refl R] [IsTrans σ R] {xs : List α} {f : α → ExceptT ε (StateM σ) Unit}
    (h : ∀ x ∈ xs, Keeps I R E Always (f x)) : Keeps I R E Always (xs.forM f) := by
  induction xs with
  | nil => exact .pure trivial
  | cons x xs ih =>
    exact (h x (List.mem_cons_self ..)).bind fun _ _ =>
      ih fun y hy => h y (List.mem_cons_of_mem _ hy)

theorem mapM [Std.Refl R] [IsTrans σ R] {xs : List α} {f : α → ExceptT ε (StateM σ) β}
    (h : ∀ x ∈ xs, Keeps I R E Q' (f x)) : Keeps I R E (fun ys => ∀ y ∈ ys, Q' y) (xs.mapM f) := by
  induction xs with
  | nil => exact .pure (by simp)
  | cons x xs ih =>
    rw [List.mapM_cons]
    refine (h x (List.mem_cons_self ..)).bind fun y hy => ?_
    refine (ih fun z hz => h z (List.mem_cons_of_mem _ hz)).bind fun ys hys => ?_
    exact .pure (List.forall_mem_cons.2 ⟨hy, hys⟩)

/-! ## Steps of runs -/

section Runs

variable {x : Prop}

theorem ofExcept [Std.Refl R] {outcome : Except Error α} (h : ∀ a, outcome = .ok a → Q a) :
    Keeps I R (Stop.Allowed x) Q (Run.ofExcept outcome) :=
  fun s hs => ⟨hs, Std.Refl.refl s, .mapError h⟩

theorem gets [Std.Refl R] {f : σ → α} (h : ∀ s, I s → Q (f s)) :
    Keeps I R (Stop.Allowed x) Q (Run.gets f) :=
  fun s hs => ⟨hs, Std.Refl.refl s, h s hs⟩

theorem read [Std.Refl R] {f : σ → Except Error α} (h : ∀ s a, I s → f s = .ok a → Q a) :
    Keeps I R (Stop.Allowed x) Q (Run.read f) :=
  fun s hs => ⟨hs, Std.Refl.refl s, .mapError fun a => h s a hs⟩

theorem modify {f : σ → σ} (h : ∀ s, I s → I (f s) ∧ R s (f s)) :
    Keeps I R (Stop.Allowed x) Always (Run.modify f) :=
  fun s hs => ⟨(h s hs).1, (h s hs).2, trivial⟩

/-- A run on a part of the state, whose changes of that part are changes of the whole. -/
theorem within {view : σ → τ} {put : σ → τ → σ} {run : Run τ α} {J : τ → Prop}
    {S : τ → τ → Prop} (hrun : Keeps J S (Stop.Allowed x) Q run) (hv : ∀ s, I s → J (view s))
    (hp : ∀ s t, I s → J t → S (view s) t → I (put s t) ∧ R s (put s t)) :
    Keeps I R (Stop.Allowed x) Q (Run.within view put run) := by
  intro s hs
  obtain ⟨hj, hr, ho⟩ := hrun (view s) (hv s hs)
  obtain ⟨hi, hr'⟩ := hp s _ hs hj hr
  exact ⟨hi, hr', ho⟩

/-- An edit of the store in the state. -/
theorem edit {view : σ → Store} {put : σ → Store → σ} {edit : Edit α} {J : Store → Prop}
    {S : Store → Store → Prop} (hedit : Keeps J S Always Q edit) (hv : ∀ s, I s → J (view s))
    (hp : ∀ s t, I s → J t → S (view s) t → I (put s t) ∧ R s (put s t)) :
    Keeps I R (Stop.Allowed x) Q (Run.edit view put edit) := by
  intro s hs
  obtain ⟨hj, hr, ho⟩ := hedit (view s) (hv s hs)
  obtain ⟨hi, hr'⟩ := hp s _ hs hj hr
  refine ⟨hi, hr', .mapError fun a ha => ?_⟩
  have ho' : Ends Always Q (Except.ok a : Except Error α) := ha ▸ ho
  exact ho'

theorem mapError {f : σ → Error → Error} {run : Run σ α}
    (h : Keeps I R (Stop.Allowed x) Q run) :
    Keeps I R (Stop.Allowed x) Q (Run.mapError f run) := by
  intro s hs
  obtain ⟨hi, hr, ho⟩ := h s hs
  exact ⟨hi, hr, ends_mapError ho⟩

end Runs

end Keeps

end RowMapper
