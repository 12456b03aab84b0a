/-
Two runs in step: from paired states they come to paired states, with the same error or with values
that correspond (`Pairing.InStep`). What is known of a value stays known behind later steps, so the
property of the values depends on the state, and the rule for sequences hands on how the states came
about. A pairing of equal states is an invariant of one run.
-/
import RowMapper.Proofs.Engine.Keeps

namespace RowMapper

variable {ε σ τ α β γ δ : Type}

/-! ## Outcomes of edits -/

theorem run_make_ok {f : Store → Except Error (α × Store)} {p q : Store} {a : α}
    (h : f p = .ok (a, q)) : (Edit.make f).run p = (.ok a, q) := by
  simp only [Edit.make, ExceptT.run, ExceptT.mk, h]

theorem run_make_error {f : Store → Except Error (α × Store)} {p : Store} {e : Error}
    (h : f p = .error e) : (Edit.make f).run p = (.error e, p) := by
  simp only [Edit.make, ExceptT.run, ExceptT.mk, h]

theorem run_change_ok {f : Store → Except Error Store} {p q : Store} (h : f p = .ok q) :
    (Edit.change f).run p = (.ok (), q) := by
  simp only [Edit.change, ExceptT.run, ExceptT.mk, h]

theorem run_change_error {f : Store → Except Error Store} {p : Store} {e : Error}
    (h : f p = .error e) : (Edit.change f).run p = (.error e, p) := by
  simp only [Edit.change, ExceptT.run, ExceptT.mk, h]

/-- An option stands in a relation to itself when its value does. -/
theorem optionRel_same {R : α → α → Prop} {o : Option α} (h : ∀ a, o = some a → R a a) :
    Option.Rel R o o := by
  cases o with
  | none => exact .none
  | some a => exact .some (h a rfl)

/-- Which states are paired, and which states come after which in the first run. -/
structure Pairing (ε σ τ : Type) where
  paired : σ → τ → Prop
  later : σ → σ → Prop
  /-- The errors of the first run behind which nothing is asked of the second. -/
  loose : ε → Prop := fun _ => False
  refl : ∀ s, later s s
  trans : ∀ {s t u}, later s t → later t u → later s u

/-- Two outcomes are the same error, or values that correspond. -/
def Outcomes (Q : α → β → Prop) : Except ε α → Except ε β → Prop
  | .ok a, .ok b => Q a b
  | .error e, .error e' => e = e'
  | _, _ => False

theorem Outcomes.imp {P Q : α → β → Prop} (hq : ∀ a b, P a b → Q a b) {x : Except ε α}
    {y : Except ε β} (h : Outcomes P x y) : Outcomes Q x y := by
  cases x <;> cases y
  · exact h
  · exact h
  · exact h
  · exact hq _ _ h

theorem Outcomes.bind {P : α → β → Prop} {Q : γ → δ → Prop} {x : Except ε α} {y : Except ε β}
    {f : α → Except ε γ} {g : β → Except ε δ} (h : Outcomes P x y)
    (hf : ∀ a b, P a b → Outcomes Q (f a) (g b)) : Outcomes Q (x >>= f) (y >>= g) := by
  cases x <;> cases y
  · exact h
  · exact h.elim
  · exact h.elim
  · exact hf _ _ h

/-- With values that are the same the outcomes are. -/
theorem Outcomes.eq {x y : Except ε α} (h : Outcomes Eq x y) : x = y := by
  cases x <;> cases y
  · exact congrArg Except.error h
  · exact h.elim
  · exact h.elim
  · exact congrArg Except.ok h

theorem Outcomes.mapError {ε' : Type} {Q : α → β → Prop} {x : Except ε α} {y : Except ε β}
    (h : Outcomes Q x y) (f : ε → ε') : Outcomes Q (x.mapError f) (y.mapError f) := by
  cases x <;> cases y
  · exact congrArg f h
  · exact h
  · exact h
  · exact h

theorem Outcomes.same {Q : α → α → Prop} {x : Except ε α} (h : ∀ a, x = .ok a → Q a a) :
    Outcomes Q x x := by
  cases x with
  | error e => exact rfl
  | ok a => exact h a rfl

namespace Pairing

/-- Two runs stay in step from two states on, unless the first stops with a loose error. -/
def InStep (K : Pairing ε σ τ) (Q : σ → α → β → Prop) (run : ExceptT ε (StateM σ) α)
    (run' : ExceptT ε (StateM τ) β) (s : σ) (t : τ) : Prop :=
  (∃ e, K.loose e ∧ (run.run s).1 = .error e) ∨
    K.paired (run.run s).2 (run'.run t).2 ∧ K.later s (run.run s).2 ∧
      Outcomes (Q (run.run s).2) (run.run s).1 (run'.run t).1

/-- The property of no values in particular. -/
abbrev Any (_ : σ) (_ : α) (_ : β) : Prop := True

/-- The property of values that are the same. -/
abbrev Same (_ : σ) (a b : α) : Prop := a = b

variable {K : Pairing ε σ τ} {Q P : σ → α → β → Prop} {s : σ} {t : τ}
  {run : ExceptT ε (StateM σ) α} {run' : ExceptT ε (StateM τ) β}

namespace InStep

/-- What holds behind a run that gives a value. -/
theorem ok {a : α} {s' : σ} (h : K.InStep Q run run' s t) (hrun : run.run s = (.ok a, s')) :
    ∃ b t', run'.run t = (.ok b, t') ∧ K.paired s' t' ∧ K.later s s' ∧ Q s' a b := by
  unfold InStep at h
  rw [hrun] at h
  rcases h with ⟨e, -, he⟩ | ⟨hp, hl, ho⟩
  · cases he
  · rcases hr : run'.run t with ⟨e | b, t'⟩
    · rw [hr] at ho
      exact ho.elim
    · rw [hr] at hp ho
      exact ⟨b, t', rfl, hp, hl, ho⟩

/-- What a run leaves that is in step with itself, where no error is loose. -/
theorem leaves {Q : σ → α → α → Prop} {K : Pairing ε σ σ} {s' : σ} {outcome : Except ε α}
    (h : K.InStep Q run run s s) (hstrict : ∀ e, ¬K.loose e) (hrun : run.run s = (outcome, s')) :
    K.paired s' s' ∧ K.later s s' ∧ Outcomes (Q s') outcome outcome := by
  have hends := h.resolve_left fun ⟨e, he, _⟩ => hstrict e he
  rwa [hrun] at hends

/-- Two runs that do the same from where they start. -/
theorem congr {again : ExceptT ε (StateM σ) α} {again' : ExceptT ε (StateM τ) β}
    (h : K.InStep Q run run' s t) (hr : again.run s = run.run s) (hr' : again'.run t = run'.run t) :
    K.InStep Q again again' s t := by
  unfold InStep
  rw [hr, hr']
  exact h

theorem imp (h : K.InStep P run run' s t) (hq : ∀ u a b, K.later s u → P u a b → Q u a b) :
    K.InStep Q run run' s t := by
  rcases h with hx | ⟨hp, hl, ho⟩
  · exact .inl hx
  · exact .inr ⟨hp, hl, ho.imp fun a b => hq _ a b hl⟩

theorem any (h : K.InStep P run run' s t) : K.InStep Any run run' s t :=
  h.imp fun _ _ _ _ _ => trivial

/-- What is known of the value and the state of the first run besides. -/
theorem and_run {R : σ → α → Prop} (h : K.InStep P run run' s t)
    (hr : ∀ a u, run.run s = (.ok a, u) → R u a) :
    K.InStep (fun u a b => P u a b ∧ R u a) run run' s t := by
  rcases h with hx | ⟨hp, hl, ho⟩
  · exact .inl hx
  · refine .inr ⟨hp, hl, ?_⟩
    rcases hrun : run.run s with ⟨e | a, u⟩ <;> rcases hrun' : run'.run t with ⟨e' | b, v⟩ <;>
      rw [hrun, hrun'] at ho
    · exact ho
    · exact ho
    · exact ho
    · exact ⟨ho, hr a u hrun⟩

/-- What is known of the value of the first run besides. -/
theorem and_ok {R : α → Prop} (h : K.InStep P run run' s t)
    (hr : ∀ a u, run.run s = (.ok a, u) → R a) :
    K.InStep (fun u a b => P u a b ∧ R a) run run' s t := h.and_run hr

/-! ## Steps in sequence -/

theorem pure {a : α} {b : β} (hp : K.paired s t) (hq : Q s a b) :
    K.InStep Q (Pure.pure a) (Pure.pure b) s t := .inr ⟨hp, K.refl s, hq⟩

theorem throw {e : ε} (hp : K.paired s t) :
    K.InStep Q (MonadExcept.throw e) (MonadExcept.throw e) s t := .inr ⟨hp, K.refl s, rfl⟩

/-- The rule for sequences, with how the states came about. -/
theorem bind_run {f : α → ExceptT ε (StateM σ) γ} {g : β → ExceptT ε (StateM τ) δ}
    {R : σ → γ → δ → Prop} (h : K.InStep Q run run' s t)
    (hf : ∀ u v a b, run.run s = (.ok a, u) → run'.run t = (.ok b, v) → K.later s u →
      K.paired u v → Q u a b → K.InStep R (f a) (g b) u v) :
    K.InStep R (run >>= f) (run' >>= g) s t := by
  unfold InStep at h
  rcases hr : run.run s with ⟨e | a, u⟩ <;> rcases hr' : run'.run t with ⟨e' | b, v⟩ <;>
    rw [hr, hr'] at h
  · rcases h with ⟨x, hx, he⟩ | hs
    · refine .inl ⟨x, hx, ?_⟩
      rw [run_bind_error hr]
      cases he
      rfl
    · refine .inr ?_
      rw [run_bind_error hr, run_bind_error hr']
      exact hs
  · rcases h with ⟨x, hx, he⟩ | ⟨-, -, ho⟩
    · refine .inl ⟨x, hx, ?_⟩
      rw [run_bind_error hr]
      cases he
      rfl
    · exact ho.elim
  · rcases h with ⟨x, -, he⟩ | ⟨-, -, ho⟩
    · cases he
    · exact ho.elim
  · rcases h with ⟨x, -, he⟩ | ⟨hp, hl, ho⟩
    · cases he
    · have hnext := hf u v a b hr hr' hl hp ho
      unfold InStep
      rw [run_bind_ok hr, run_bind_ok hr']
      exact Or.imp_right (fun hs => ⟨hs.1, K.trans hl hs.2.1, hs.2.2⟩) hnext

theorem bind {f : α → ExceptT ε (StateM σ) γ} {g : β → ExceptT ε (StateM τ) δ}
    {R : σ → γ → δ → Prop} (h : K.InStep Q run run' s t)
    (hf : ∀ u v a b, K.later s u → K.paired u v → Q u a b → K.InStep R (f a) (g b) u v) :
    K.InStep R (run >>= f) (run' >>= g) s t :=
  h.bind_run fun u v a b _ _ => hf u v a b

/-- A loop over items that correspond, each of whose rounds stays in step from later states on. -/
theorem forM₂ {xs : List γ} {ys : List δ} {f : γ → ExceptT ε (StateM σ) Unit}
    {g : δ → ExceptT ε (StateM τ) Unit}
    (h : List.Forall₂ (fun x y => ∀ u v, K.later s u → K.paired u v →
      K.InStep Any (f x) (g y) u v) xs ys) :
    ∀ {u : σ} {v : τ}, K.later s u → K.paired u v → K.InStep Any (xs.forM f) (ys.forM g) u v := by
  induction h with
  | nil => exact fun _ hp => .pure hp trivial
  | cons hxy _ ih =>
    intro u v hl hp
    refine (hxy u v hl hp).bind fun u' v' _ _ hl' hp' _ => ?_
    exact ih (K.trans hl hl') hp'

/-- A loop over the same items, each of whose rounds stays in step from later states on. -/
theorem forM {xs : List γ} {f : γ → ExceptT ε (StateM σ) Unit}
    {g : γ → ExceptT ε (StateM τ) Unit} (hp : K.paired s t)
    (h : ∀ x ∈ xs, ∀ u v, K.later s u → K.paired u v → K.InStep Any (f x) (g x) u v) :
    K.InStep Any (xs.forM f) (xs.forM g) s t :=
  forM₂ (List.forall₂_same.2 h) (K.refl s) hp

/-- A loop over the same items that gives a list. -/
theorem mapM {xs : List γ} {f : γ → ExceptT ε (StateM σ) α} {g : γ → ExceptT ε (StateM τ) β}
    (hp : K.paired s t)
    (hq : ∀ u v a b, K.later u v → Q u a b → Q v a b)
    (h : ∀ x ∈ xs, ∀ u v, K.later s u → K.paired u v → K.InStep Q (f x) (g x) u v) :
    K.InStep (fun u => List.Forall₂ (Q u)) (xs.mapM f) (xs.mapM g) s t := by
  induction xs generalizing s t with
  | nil => exact .pure hp .nil
  | cons x xs ih =>
    rw [List.mapM_cons, List.mapM_cons]
    refine (h x (List.mem_cons_self ..) s t (K.refl s) hp).bind fun u v a b hl hp' hab => ?_
    have hrest := ih hp' fun y hy u' v' hl' =>
      h y (List.mem_cons_of_mem _ hy) u' v' (K.trans hl hl')
    refine hrest.bind fun u' v' as bs hl' hp'' habs => ?_
    exact .pure hp'' (.cons (hq u u' a b hl' hab) habs)

/-! ## Steps of edits -/

section Edits

variable {J : Pairing Error Store Store} {p q : Store} {R : Store → α → α → Prop}

/-- What comes behind looking at the stores starts from the same stores. -/
theorem store_bind {k : Store → Edit α} {k' : Store → Edit β} {R : Store → α → β → Prop}
    (h : J.InStep R (k p) (k' q) p q) : J.InStep R (Edit.store >>= k) (Edit.store >>= k') p q :=
  h.congr (run_bind_ok rfl) (run_bind_ok rfl)

theorem editRead {f g : Store → Except Error α} (hp : J.paired p q) (heq : f p = g q)
    (hq : ∀ a, f p = .ok a → R p a a) : J.InStep R (Edit.read f) (Edit.read g) p q := by
  refine .inr ⟨hp, J.refl p, ?_⟩
  show Outcomes (R p) (f p) (g q)
  rw [← heq]
  exact .same hq

theorem editOf {outcome : Except Error α} (hp : J.paired p q) (hq : ∀ a, outcome = .ok a → R p a a) :
    J.InStep R (Edit.ofExcept outcome) (Edit.ofExcept outcome) p q :=
  .inr ⟨hp, J.refl p, .same hq⟩

end Edits

/-! ## Steps of runs -/

section Runs

variable {K : Pairing Stop σ τ} {run : Run σ α} {run' : Run τ β} {R : σ → α → α → Prop}

theorem ofExcept {outcome : Except Error α} (hp : K.paired s t)
    (hq : ∀ a, outcome = .ok a → R s a a) :
    K.InStep R (Run.ofExcept outcome) (Run.ofExcept outcome) s t := by
  refine .inr ⟨hp, K.refl s, ?_⟩
  have ho : Outcomes (R s) outcome outcome := .same hq
  exact ho.mapError _

theorem gets {f : σ → α} {g : τ → β} (hp : K.paired s t) (hq : Q s (f s) (g t)) :
    K.InStep Q (Run.gets f) (Run.gets g) s t := .inr ⟨hp, K.refl s, hq⟩

/-- What comes behind reading from the states starts from the same states. -/
theorem gets_bind {f : σ → α} {g : τ → β} {k : α → Run σ γ} {k' : β → Run τ δ}
    {Q : σ → γ → δ → Prop} (h : K.InStep Q (k (f s)) (k' (g t)) s t) :
    K.InStep Q (Run.gets f >>= k) (Run.gets g >>= k') s t :=
  h.congr (run_gets_bind f k s) (run_gets_bind g k' t)

theorem read {f : σ → Except Error α} {g : τ → Except Error α} (hp : K.paired s t)
    (heq : f s = g t) (hq : ∀ a, f s = .ok a → R s a a) :
    K.InStep R (Run.read f) (Run.read g) s t := by
  refine .inr ⟨hp, K.refl s, ?_⟩
  show Outcomes (R s) ((f s).mapError Stop.failed) ((g t).mapError Stop.failed)
  rw [← heq]
  have ho : Outcomes (R s) (f s) (f s) := .same hq
  exact ho.mapError _

theorem modify {f : σ → σ} {g : τ → τ} (hp : K.paired (f s) (g t)) (hl : K.later s (f s)) :
    K.InStep Any (Run.modify f) (Run.modify g) s t := .inr ⟨hp, hl, trivial⟩

theorem mapError {f : σ → Error → Error} {g : τ → Error → Error} (h : K.InStep Q run run' s t)
    (hx : ∀ e, K.loose e → e = .exhausted) (hfg : ∀ u v e, K.paired u v → f u e = g v e) :
    K.InStep Q (Run.mapError f run) (Run.mapError g run') s t := by
  unfold InStep
  rw [run_mapError, run_mapError]
  rcases h with ⟨e, hloose, he⟩ | ⟨hp, hl, ho⟩
  · refine .inl ⟨e, hloose, ?_⟩
    cases hx e hloose
    rw [he]
    rfl
  · refine .inr ⟨hp, hl, ?_⟩
    have heq : f (run.run s).2 = g (run'.run t).2 := funext fun e => hfg _ _ e hp
    rw [heq]
    exact ho.mapError _

theorem andAfter {f : σ → σ} {g : τ → τ} (h : K.InStep P run run' s t)
    (hfg : ∀ u v, K.paired u v → K.paired (f u) (g v) ∧ K.later u (f u))
    (hq : ∀ u a b, P u a b → Q (f u) a b) :
    K.InStep Q (Run.andAfter run f) (Run.andAfter run' g) s t := by
  rcases h with hx | ⟨hp, hl, ho⟩
  · exact .inl hx
  · obtain ⟨hp', hl'⟩ := hfg _ _ hp
    exact .inr ⟨hp', K.trans hl hl', ho.imp (hq _)⟩

end Runs

end InStep

end Pairing

end RowMapper
