/-
Where a write leaves something. Writing a value at the steps of a path plants one thing in an object of
a declared type, at a place that the types determine: the value at the end of the path, or a new
document at the property on the way that is declared as one (`DataType.plant`). What an object holds at
its properties is told apart from what they read as, since a map holds nothing where it reads as null
(`ObjectData.holds?`).
-/
import RowMapper.Proofs.Objects.Stored
import RowMapper.Proofs.Access.Walks

namespace RowMapper

/-! ## Entries -/

namespace ObjectData

variable {d : ObjectData} {declared : DataType} {p q : String} {v w : Value} {r : ObjectRef}

/-- What an object holds at a property. A map may hold nothing where it reads as null. -/
def holds? (d : ObjectData) (property : String) : Option Value :=
  match d with
  | .map entries => Table.get? property entries
  | .bean type fields => (Table.indexOf? property type.properties).bind (fields[·]?)
  | .dom _ => none

theorem holds?_map (entries : List (String × Value)) (p : String) :
    holds? (.map entries) p = Table.get? p entries := rfl

theorem holds?_eq_slot? (h : d.kind ≠ .map) (p : String) : d.holds? p = d.slot? p := by
  cases d with
  | map entries => exact absurd rfl h
  | _ => rfl

theorem holds?_of_slot?_object (h : d.slot? p = some (.object r)) : d.holds? p = some (.object r) := by
  cases d with
  | map entries =>
    rw [slot?_map, Option.some.injEq] at h
    rw [holds?_map]
    cases hg : Table.get? p entries <;> rw [hg] at h
    · cases h
    · exact congrArg some h
  | _ => exact h

theorem holds?_put_of_ne (h : q ≠ p) : (d.put p v).holds? q = d.holds? q := by
  cases d with
  | map entries => exact Table.get?_put_of_ne h v entries
  | _ => rw [holds?_eq_slot? (by rw [kind_put]; exact nofun), slot?_put_of_ne h]; rfl

theorem holds?_put_self (h : d.slot? p = some w) : (d.put p v).holds? p = some v := by
  cases d with
  | map entries => exact Table.get?_put_self p v entries
  | _ => rw [holds?_eq_slot? (by rw [kind_put]; exact nofun), slot?_put_self h]

theorem Of.put (h : d.Of declared) : (d.put p v).Of declared := by
  unfold ObjectData.put
  cases d with
  | bean type fields =>
    dsimp only
    split
    · exact ⟨h.1, List.length_set.trans h.2⟩
    · exact h
  | _ => exact h

end ObjectData

namespace DataType

variable {σ τ : DataType} {p : String} {d : ObjectData}

@[simp] theorem atSteps_nil (type : DataType) : type.atSteps [] = .ok type := by
  cases type <;> rfl

/-- What a new object of a type holds at a property. -/
def unset? (σ : DataType) (property : String) : Option Value :=
  (Store.madeType σ).newData?.bind (·.holds? property)

theorem unset?_of_not_bean (h : σ.isBean = false) (p : String) : σ.unset? p = none := by
  cases σ <;> first | rfl | cases h

theorem unset?_bean (type : BeanType) (p : String) : type.type.unset? p =
    (Table.indexOf? p type.properties).bind
      ((List.replicate type.properties.length Value.null)[·]?) := rfl

/-- That is null, or nothing. -/
theorem unset?_cases (σ : DataType) (p : String) : σ.unset? p = none ∨ σ.unset? p = some .null := by
  cases σ with
  | bean name properties =>
    rw [show DataType.bean name properties = BeanType.type ⟨name, properties⟩ from rfl, unset?_bean]
    cases hi : Table.indexOf? p properties with
    | none => exact .inl rfl
    | some i =>
      refine .inr ?_
      rw [Option.bind_some, List.getElem?_replicate, if_pos (Table.lt_of_indexOf? hi)]
  | _ => exact .inl rfl

/-- A property that takes a type and was given no value reads as null. -/
theorem slot?_of_unset (hd : d.Of σ) (hσ : σ.atSteps [p] = .ok τ) (h : d.holds? p = σ.unset? p) :
    d.slot? p = some .null := by
  cases d with
  | map entries =>
    rw [unset?_of_not_bean hd] at h
    rw [ObjectData.holds?_map] at h
    rw [ObjectData.slot?_map, h]
    rfl
  | bean type fields =>
    obtain ⟨rfl, -⟩ := hd
    rw [ObjectData.holds?_eq_slot? (d := .bean type fields) (by exact nofun)] at h
    rw [h, unset?_bean]
    simp only [BeanType.type, atSteps] at hσ
    split at hσ
    · next property hg =>
      obtain ⟨i, hi⟩ := Table.exists_indexOf?_of_get? hg
      rw [hi, Option.bind_some, List.getElem?_replicate, if_pos (Table.lt_of_indexOf? hi)]
    · cases hσ
  | dom node => exact hd.elim

end DataType

/-! ## What is planted -/

/-- What is made for a property is of the type that is declared, unless it is a document. -/
theorem Store.of_newData? {τ : DataType} {d : ObjectData} (hd : (Store.madeType τ).newData? = some d)
    (hdom : ∀ node, d ≠ .dom node) : d.Of τ := by
  cases τ with
  | bean name properties =>
    cases hd
    exact .newBean ⟨name, properties⟩
  | object | map =>
    cases hd
    rfl
  | dom =>
    cases hd
    exact absurd rfl (hdom _)
  | _ => cases hd

/-- What a write leaves at its place: a value, or a document. -/
inductive Planted where
  | value (v : Value)
  | document (node : DomNode)

/-- The place at which writing a value at some steps plants something, in an object of a type, and what
it is. Properties of objects lead on, a document takes the rest of the steps, and what else is declared
lets no path go on. -/
def DataType.plant (nodes : List DomNode) (v : Value) :
    DataType → List String → Option (List String × Planted)
  | _, [] => none
  | σ, [p] => do
    let declared ← (σ.atSteps [p]).toOption
    let w ← (declared.cast v).toOption
    some ([p], .value w)
  | σ, p :: next :: rest => do
    let declared ← (σ.atSteps [p]).toOption
    match (Store.madeType declared).newData? with
    | none => none
    | some (.dom node) => some ([p], .document (node.setContent (Text.path (next :: rest)) nodes))
    | some _ => (plant nodes v declared (next :: rest)).map fun place => (p :: place.1, place.2)

namespace DataType

variable {nodes : List DomNode} {v : Value} {σ τ : DataType} {p : String} {planted : Planted}
  {steps d : List String}

theorem plant_error {e : Error} (hσ : σ.atSteps [p] = .error e) (next : String) (rest : List String) :
    σ.plant nodes v (p :: next :: rest) = none := by
  rw [plant, hσ]
  rfl

theorem plant_none (hσ : σ.atSteps [p] = .ok τ) (hd : (Store.madeType τ).newData? = none)
    (next : String) (rest : List String) : σ.plant nodes v (p :: next :: rest) = none := by
  rw [plant, hσ, Except.toOption, Option.bind_eq_bind, Option.bind_some, hd]

theorem plant_document {node : DomNode} (hσ : σ.atSteps [p] = .ok τ)
    (hd : (Store.madeType τ).newData? = some (.dom node)) (next : String) (rest : List String) :
    σ.plant nodes v (p :: next :: rest) =
      some ([p], .document (node.setContent (Text.path (next :: rest)) nodes)) := by
  rw [plant, hσ, Except.toOption, Option.bind_eq_bind, Option.bind_some, hd]

theorem plant_object {d : ObjectData} (hσ : σ.atSteps [p] = .ok τ)
    (hd : (Store.madeType τ).newData? = some d) (hof : d.Of τ) (next : String) (rest : List String) :
    σ.plant nodes v (p :: next :: rest) =
      (τ.plant nodes v (next :: rest)).map fun place => (p :: place.1, place.2) := by
  rw [plant, hσ, Except.toOption, Option.bind_eq_bind, Option.bind_some, hd]
  cases d with
  | dom node => exact hof.elim
  | _ => rfl

/-- What is planted behind a first step: a document that the step leads to, or what is planted in the
object there. -/
theorem plant_cons_eq_some {next : String} {rest : List String}
    (h : σ.plant nodes v (p :: next :: rest) = some (d, planted)) : ∃ τ, σ.atSteps [p] = .ok τ ∧
      (τ = .dom ∧ d = [p] ∧ planted = .document
        ((DomNode.element "result" []).setContent (Text.path (next :: rest)) nodes) ∨
      τ ≠ .dom ∧ ∃ e, τ.plant nodes v (next :: rest) = some (e, planted) ∧ d = p :: e) := by
  cases hσ : σ.atSteps [p] with
  | error e =>
    rw [plant_error hσ] at h
    cases h
  | ok τ =>
    refine ⟨τ, rfl, ?_⟩
    cases hd : (Store.madeType τ).newData? with
    | none =>
      rw [plant_none hσ hd] at h
      cases h
    | some data =>
      by_cases hnode : ∃ node, data = .dom node
      · obtain ⟨node, rfl⟩ := hnode
        rw [plant_document hσ hd] at h
        cases h
        cases τ <;> cases hd
        exact .inl ⟨rfl, rfl, rfl⟩
      · rw [plant_object hσ hd (Store.of_newData? hd fun node he => hnode ⟨node, he⟩)] at h
        obtain ⟨⟨e, planted⟩, hplace, he⟩ := Option.map_eq_some_iff.1 h
        cases he
        refine .inr ⟨?_, e, hplace, rfl⟩
        rintro rfl
        exact hnode ⟨_, (Option.some.inj hd).symm⟩

/-- What is planted at the end of a path is the value as one of the declared type. -/
theorem plant_single_eq_some (h : σ.plant nodes v [p] = some (d, planted)) :
    ∃ τ w, σ.atSteps [p] = .ok τ ∧ τ.cast v = .ok w ∧ d = [p] ∧ planted = .value w := by
  unfold plant at h
  cases hτ : σ.atSteps [p] with
  | error e =>
    rw [hτ] at h
    cases h
  | ok τ =>
    rw [hτ, Except.toOption, Option.bind_eq_bind, Option.bind_some] at h
    cases hw : τ.cast v with
    | error e =>
      rw [hw] at h
      cases h
    | ok w =>
      rw [hw] at h
      cases h
      exact ⟨τ, w, rfl, hw, rfl, rfl⟩

/-- Nothing is planted at no steps. -/
theorem ne_nil_of_plant (h : σ.plant nodes v steps = some (d, planted)) : d ≠ [] := by
  match steps with
  | [] => cases h
  | [p] =>
    obtain ⟨_, _, -, -, rfl, -⟩ := plant_single_eq_some h
    exact List.cons_ne_nil _ _
  | p :: next :: rest =>
    obtain ⟨_, -, ⟨-, rfl, -⟩ | ⟨-, _, -, rfl⟩⟩ := plant_cons_eq_some h <;> exact List.cons_ne_nil _ _

theorem atSteps_cons (hσ : σ.atSteps [p] = .ok τ) (steps : List String) :
    σ.atSteps (p :: steps) = τ.atSteps steps := by
  rw [← List.singleton_append, atSteps_append, hσ]
  rfl

/-- What is no bean can hold anything. -/
theorem atSteps_of_not_bean (hσ : σ.isBean = false) (hne : steps ≠ []) :
    σ.atSteps steps = .ok .object := by
  induction steps generalizing σ with
  | nil => exact absurd rfl hne
  | cons p steps ih =>
    rw [atSteps_cons (atSteps_single hσ p)]
    cases steps with
    | nil => exact atSteps_nil _
    | cons next rest => exact ih rfl (List.cons_ne_nil _ _)

/-- The place is the end of the path, or a document on the way. -/
theorem place_of_plant : ∀ {steps d : List String} {σ : DataType},
    σ.plant nodes v steps = some (d, planted) → d = steps ∨ d <+: steps ∧ σ.atSteps d = .ok .dom
  | [], _, _, h => nomatch h
  | [p], _, _, h => by
    obtain ⟨_, _, -, -, rfl, -⟩ := plant_single_eq_some h
    exact .inl rfl
  | p :: next :: rest, _, _, h => by
    obtain ⟨τ, hτ, ⟨rfl, rfl, -⟩ | ⟨-, e, he, rfl⟩⟩ := plant_cons_eq_some h
    · exact .inr ⟨⟨next :: rest, rfl⟩, hτ⟩
    · refine (place_of_plant he).imp (congrArg (p :: ·)) fun ⟨hle, hdom⟩ => ⟨?_, ?_⟩
      · exact List.cons_prefix_cons.2 ⟨rfl, hle⟩
      · rw [atSteps_cons hτ]
        exact hdom

/-- A value that is planted is the one that is written, as one of some type. -/
theorem cast_of_plant {w : Value} : ∀ {steps d : List String} {σ : DataType},
    σ.plant nodes v steps = some (d, .value w) → ∃ τ : DataType, τ.cast v = .ok w
  | [], _, _, h => nomatch h
  | [p], _, _, h => by
    obtain ⟨τ, _, -, hcast, -, hw⟩ := plant_single_eq_some h
    cases hw
    exact ⟨τ, hcast⟩
  | p :: next :: rest, _, _, h => by
    obtain ⟨τ, -, ⟨-, -, hw⟩ | ⟨-, e, he, -⟩⟩ := plant_cons_eq_some h
    · cases hw
    · exact cast_of_plant he

/-- What is planted depends on the value as one of the type that is declared at the end of the path, and
in a document on its content there. -/
theorem plant_unique {nodes' : List DomNode} {v' : Value} {planted' : Planted} :
    ∀ {steps d d' : List String} {σ : DataType}, σ.plant nodes v steps = some (d, planted) →
      σ.plant nodes' v' steps = some (d', planted') →
      (∀ τ w w', σ.atSteps steps = .ok τ → τ.cast v = .ok w → τ.cast v' = .ok w' → w = w') →
      (σ.atSteps steps = .ok .object → nodes = nodes') → d = d' ∧ planted = planted'
  | [], _, _, _, h, _, _, _ => nomatch h
  | [p], _, _, _, h, h', hcast, _ => by
    obtain ⟨τ, w, hτ, hw, rfl, rfl⟩ := plant_single_eq_some h
    obtain ⟨τ', w', hτ', hw', rfl, rfl⟩ := plant_single_eq_some h'
    cases hτ.symm.trans hτ'
    rw [hcast τ w w' hτ hw hw']
    exact ⟨rfl, rfl⟩
  | p :: next :: rest, _, _, _, h, h', hcast, hnodes => by
    obtain ⟨τ, hτ, hplace⟩ := plant_cons_eq_some h
    obtain ⟨τ', hτ', hplace'⟩ := plant_cons_eq_some h'
    cases hτ.symm.trans hτ'
    rw [atSteps_cons hτ] at hcast hnodes
    rcases hplace with ⟨rfl, rfl, rfl⟩ | ⟨hdom, e, he, rfl⟩
    · obtain ⟨-, rfl, rfl⟩ := hplace'.resolve_right fun h => h.1 rfl
      rw [hnodes (atSteps_of_not_bean rfl (List.cons_ne_nil _ _))]
      exact ⟨rfl, rfl⟩
    · obtain ⟨-, e', he', rfl⟩ := hplace'.resolve_left fun h => hdom h.1
      obtain ⟨rfl, rfl⟩ := plant_unique he he' hcast hnodes
      exact ⟨rfl, rfl⟩

end DataType

end RowMapper
