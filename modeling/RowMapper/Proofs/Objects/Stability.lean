/-
Stable properties of stores. What is kept when an object without values is made, and when a value is put
at a property, is kept by all that is written through paths, from rows and from outputs: it is a
correspondence of a store with itself (`Store.keeping`). So the engine keeps it if collections that grow
in place do (`Store.Stable.upholds`).
-/
import RowMapper.Proofs.Engine.Upkeep

namespace RowMapper.Store

variable {I : Store → Prop} {s : Store} {α : Type}

/-- A property of stores that making an object and putting a value at a property keep. -/
structure Stable (I : Store → Prop) : Prop where
  newObject : ∀ {s : Store} {d : ObjectData}, (∀ v ∈ d.values, v = .null) → I s → I (s.newObject d).2
  setProperty : ∀ {s t : Store} {r : ObjectRef} {property : String} {v : Value},
    s.setProperty r property v = .ok t → I s → I t

/-- A store on its own, with a property that it keeps. -/
def keeping (I : Store → Prop) : StoreCorrespondence where
  paired s t := s = t ∧ I s
  later _ _ := True
  refl _ := trivial
  trans _ _ := trivial
  values _ v w := v = w
  owners _ r r' _ := r = r'
  values_later _ := id
  owners_later _ := id

theorem kept_of_inStep {S : Store → α → α → Prop} {edit : Edit α}
    (h : (keeping I).InStep S edit edit s s) : I (edit.run s).2 :=
  (h.resolve_left fun ⟨_, he, _⟩ => he).1.2

namespace Stable

theorem writes (h : Stable I) : (keeping I).Writes where
  null := rfl
  variant h := congrArg _ h
  object h := ⟨_, h.symm, fun _ => rfl⟩
  kind h ho := h.1 ▸ ho ▸ rfl
  type h ho := h.1 ▸ ho ▸ rfl
  setterType _ h ho := h.1 ▸ ho ▸ rfl
  getProperty _ h ho := h.1 ▸ ho ▸ .same fun _ _ => rfl
  setProperty := by
    rintro s _ r _ step a _ rest ⟨rfl, hs⟩ rfl - rfl
    refine .inr ?_
    cases hset : s.setProperty r (Text.path (step :: rest)) a with
    | error e =>
      rw [run_change_error hset]
      exact ⟨⟨rfl, hs⟩, trivial, rfl⟩
    | ok t =>
      rw [run_change_ok hset]
      exact ⟨⟨rfl, h.setProperty hset hs⟩, trivial, trivial⟩
  newObject := by
    rintro s _ data ⟨rfl, hs⟩ hnull
    exact .inr ⟨⟨rfl, h.newObject hnull hs⟩, trivial, rfl⟩
  empty _ := rfl

theorem instantiate (h : Stable I) (type : DataType) (hs : I s) :
    I ((Edit.make type.instantiate).run s).2 :=
  kept_of_inStep (h.writes.instantiate type ⟨rfl, hs⟩)

theorem owner (h : Stable I) (accessor : Accessor) (v : Value) (path : String) (hs : I s) :
    I ((accessor.owner v path).run s).2 :=
  kept_of_inStep (h.writes.owner accessor path ⟨rfl, hs⟩ fun _ _ _ => h.writes.roots (v := v) _ rfl)

theorem set (h : Stable I) (accessor : Accessor) (v : Value) (path : String) (a : Value) (hs : I s) :
    I ((accessor.set v path a).run s).2 :=
  kept_of_inStep (h.writes.set accessor path ⟨rfl, hs⟩ (fun _ _ _ => h.writes.roots _ rfl) rfl)

/-- Moving the values of a row into an object is putting them at its properties, whichever object it
is. -/
theorem exchange (h : Stable I) (exchange : Exchange) (accessor : Accessor) (m : ResultMap)
    (mappings : List ResultMapping) (target : Option Value) (values : List Value) (hs : I s) :
    I ((exchange.setData accessor m mappings target values).run s).2 :=
  kept_of_inStep (h.writes.setData exchange accessor m mappings ⟨rfl, hs⟩ (optionRel_same fun _ _ => rfl)
    (List.forall₂_same.2 fun v (_ : v ∈ values) => rfl)
    fun hv => congrArg Value.record (List.forall₂_eq_eq_eq ▸ hv))

theorem writeOutputs (h : Stable I) (parameterMap : ParameterMap) (accessor : Accessor) (v : Value)
    (out : OutParams) (hs : I s) : I ((parameterMap.writeOutputs accessor v out).run s).2 :=
  kept_of_inStep (h.writes.writeOutputs parameterMap accessor ⟨rfl, hs⟩ rfl fun _ _ => rfl)

/-- What is left to show for all that the engine does with a catalog: queries that are put off, and
collections that grow in place. -/
theorem upholds {c : Catalog} (h : Stable I)
    (lazies : ∀ {s : Store} (lazies : Array LazyCell), I s → I { s with lazies })
    (gather : ∀ {s : Store} {m : ResultMap} {mapping : ResultMapping}
      {change : Store → Value → Value × Except Error Unit} (parent : Value), c.Holds m →
      mapping ∈ m.declared → mapping.isNestedMap = true → (∀ s w, Value.Extends w (change s w).1) →
      I s → I ((c.accessor.update parent mapping.property change).run s).2) : c.Upholds I where
  lazies := lazies
  instantiate type hs := h.instantiate type hs
  document _ hs := h.newObject nofun hs
  set v path a hs := h.set c.accessor v path a hs
  exchange m mappings target values hs := h.exchange m.exchange c.accessor m mappings target values hs
  gather := gather
  outputs parameterMap v out hs := h.writeOutputs parameterMap c.accessor v out hs

end Stable

end RowMapper.Store
