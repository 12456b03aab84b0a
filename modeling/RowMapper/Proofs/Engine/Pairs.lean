/-
Filling an object by the pairs of a specifier. Each pair that is written plants one thing at its place
(`Filled.step`), so that behind all of them the object holds what they plant and nothing else
(`Filled.run_ok`), as long as no path goes on from another and no two go into one document.
-/
import RowMapper.Proofs.Access.Layout
import RowMapper.Proofs.Engine.Columns
import RowMapper.Proofs.Engine.Discriminators

namespace RowMapper

open Store

/-! ## One pair -/

/-- Reads the column of a pair as the property at its path takes it, and writes it there. -/
def Catalog.writePair (catalog : Catalog) (parameter : Value) (pair : String × String) :
    Run Frame Unit := do
  let declared ← Run.read fun frame : Frame =>
    catalog.accessor.setterType frame.world.store parameter pair.1
  let v ← Frame.readColumn (catalog.coercerFor declared) (.name pair.2)
  Frame.edit (catalog.accessor.set parameter pair.1 v)

theorem ResultMapping.objectParameter_composite {m : ResultMapping} {pairs : List (String × String)}
    (h : m.spec = some (.composite pairs)) (catalog : Catalog) (type : DataType) :
    m.objectParameter catalog type = do
      let parameter ← Frame.edit (Edit.make type.instantiate)
      pairs.forM (catalog.writePair parameter)
      return parameter := by
  unfold objectParameter
  rw [h]
  rfl

theorem run_read {σ α : Type} (f : σ → Except Error α) (s : σ) :
    (Run.read f).run s = ((f s).mapError .failed, s) := rfl

section

variable {catalog : Catalog} {parameter : Value} {pair : String × String} {f g : Frame}
  {declared : DataType}

theorem run_writePair_error {e : Error}
    (h : catalog.accessor.setterType f.world.store parameter pair.1 = .error e) :
    (catalog.writePair parameter pair).run f = (.error (.failed e), f) :=
  run_bind_error ((run_read _ f).trans (by rw [h]; rfl))

/-- A pair is written when its type is known, its column is read, and its value is put there. -/
theorem run_writePair (h : catalog.accessor.setterType f.world.store parameter pair.1 = .ok declared) :
    (catalog.writePair parameter pair).run f = (.ok (), g) ↔ ∃ stored v t,
      f.cell (.name pair.2) = .ok stored ∧ (catalog.coercerFor declared).ofStored stored = .ok v ∧
      (catalog.accessor.set parameter pair.1 v).run f.world.store = (.ok (), t) ∧
      g = { ((Frame.readColumn (catalog.coercerFor declared) (.name pair.2)).run f).2 with
        world := { f.world with store := t } } := by
  have hread : (Run.read fun frame : Frame =>
      catalog.accessor.setterType frame.world.store parameter pair.1).run f = (.ok declared, f) :=
    (run_read _ f).trans (by rw [h]; rfl)
  have hcell := Frame.run_readColumn (catalog.coercerFor declared) (.name pair.2) f
  have hworld := (Rereads.column (catalog.coercerFor declared) (.name pair.2) f trivial).2.1.world
  rw [Catalog.writePair, run_bind_ok hread, run_bind_eq_ok]
  constructor
  · rintro ⟨v, u, hv, hset⟩
    rw [hv] at hcell hworld
    obtain ⟨stored, hstored, hv'⟩ := Except.bind_eq_ok_iff.1 (Except.mapError_eq_ok_iff.1 hcell.symm)
    obtain ⟨t, hset, hg⟩ := run_edit_eq_ok.1 hset
    rw [hworld] at hset hg
    exact ⟨stored, v, t, hstored, hv', hset, hv ▸ hg⟩
  · rintro ⟨stored, v, t, hstored, hv, hset, rfl⟩
    rw [hstored] at hcell
    have hok := hcell.trans (congrArg (Except.mapError Stop.failed) hv)
    refine ⟨v, _, Prod.ext hok rfl, run_edit_eq_ok.2 ⟨t, ?_, ?_⟩⟩
    · rw [hworld]
      exact hset
    · rw [hworld]

end

/-- Writing at a path that an accessor takes is writing at its steps. -/
theorem Accessor.run_set_eq_write {accessor : Accessor} {s : Store} {r : ObjectRef}
    (h : accessor.Takes (s.kind r)) (path : String) (v : Value) :
    (accessor.set (.object r) path v).run s = (Store.write r (Text.steps path) v).run s := by
  have hread : (Edit.read (accessor.root · (.object r) path)).run s = (.ok r, s) :=
    congrArg (·, s) (h.root path)
  have howner : (accessor.owner (.object r) path).run s = (walkMaking r (Text.steps path)).run s := by
    rw [owner, run_bind_ok hread]
  exact run_bind_congr howner fun _ _ _ => rfl

/-! ## Paths that do not meet -/

namespace DataType

variable {type : DataType} {paths : List String} {p q : String} {d : List String}

/-- Paths of which none goes on from another, and no two go into one document. -/
structure Spreads (type : DataType) (paths : List String) : Prop where
  apart : paths.Pairwise Text.Apart
  documents : ∀ p ∈ paths, ∀ q ∈ paths, p ≠ q → ∀ d, type.atSteps d = .ok .dom →
    d <+: Text.steps p → ¬d <+: Text.steps q

/-- Whether a bean is declared behind some steps. -/
def beanAt (type : DataType) (steps : List String) : Bool :=
  (type.atSteps steps).toOption.any (·.isBean)

/-- No path ends at a property of an inner bean that another path goes into. -/
def OwnBeans (type : DataType) (paths : List String) : Prop :=
  ∀ p ∈ paths, ∀ q ∈ paths, p ≠ q → (Text.steps p).dropLast ≠ [] →
    type.beanAt (Text.steps p).dropLast = true → ¬(Text.steps p).dropLast <+: Text.steps q

instance : Decidable (type.OwnBeans paths) :=
  inferInstanceAs (Decidable (∀ p ∈ paths, ∀ q ∈ paths, p ≠ q → (Text.steps p).dropLast ≠ [] →
    type.beanAt (Text.steps p).dropLast = true → ¬(Text.steps p).dropLast <+: Text.steps q))

instance : Decidable (type.Spreads paths) :=
  decidable_of_iff (paths.Pairwise Text.Apart ∧ ∀ p ∈ paths, ∀ q ∈ paths, p ≠ q →
      ∀ d ∈ (Text.steps p).inits, type.atSteps d = .ok .dom → ¬d <+: Text.steps q)
    ⟨fun ⟨hapart, hdocuments⟩ => ⟨hapart, fun p hp q hq hne d hd hle =>
      hdocuments p hp q hq hne d ((List.mem_inits d _).2 hle) hd⟩,
    fun h => ⟨h.apart, fun p hp q hq hne d hle hd =>
      h.documents p hp q hq hne d hd ((List.mem_inits d _).1 hle)⟩⟩

/-- The place of what is written at a path. -/
def PlaceOf (type : DataType) (path : String) (d : List String) : Prop :=
  d = Text.steps path ∨ d <+: Text.steps path ∧ type.atSteps d = .ok .dom

theorem PlaceOf.isPrefix (h : type.PlaceOf p d) : d <+: Text.steps p := by
  rcases h with rfl | ⟨hle, -⟩
  · exact List.prefix_rfl
  · exact hle

/-- Nothing that stands for one path is on the way along another, or behind it. -/
theorem Spreads.clear (h : type.Spreads paths) (hp : p ∈ paths) (hq : q ∈ paths) (hne : p ≠ q)
    (hd : type.PlaceOf p d) : ¬d <+: Text.steps q ∧ ¬Text.steps q <+: d := by
  have hapart : Text.Apart p q := h.apart.forall hp hq hne
  refine ⟨fun hle => ?_, fun hle => hapart.2 (hle.trans hd.isPrefix)⟩
  rcases hd with rfl | ⟨hlep, hdom⟩
  · exact hapart.1 hle
  · exact h.documents p hp q hq hne d hdom hlep hle

/-- No document is declared in a map, so that paths need only be apart. -/
theorem spreads_map (h : paths.Pairwise Text.Apart) : DataType.map.Spreads paths where
  apart := h
  documents _ _ _ _ _ d hd := by
    by_cases hnil : d = []
    · subst hnil
      cases (atSteps_nil .map).symm.trans hd
    · cases (atSteps_of_not_bean rfl hnil).symm.trans hd

/-- No bean is declared in a map either. -/
theorem ownBeans_map (paths : List String) : DataType.map.OwnBeans paths := by
  intro p _ q _ _ hne hbean
  rw [beanAt, atSteps_of_not_bean rfl hne] at hbean
  cases hbean

end DataType

/-! ## Filling an object -/

/-- The steps between a root and some places. -/
def InnerOf (parts : List (List String × Planted)) (a : List String) : Prop :=
  a = [] ∨ ∃ place ∈ parts, a <+: place.1 ∧ a ≠ place.1

/-- An object that is filled on the row of an earlier frame has something at some places, and nothing
else. -/
structure Filled (f₀ f : Frame) (root : ObjectRef) (type : DataType)
    (parts : List (List String × Planted)) : Prop where
  row : f.request.row = f₀.request.row
  layout : Layout f₀.world.store f.world.store root type (InnerOf parts)
    fun d planted => (d, planted) ∈ parts

/-- What a pair plants when its column is read as a type. -/
def Catalog.PlantsAs (catalog : Catalog) (f₀ : Frame) (type declared : DataType)
    (pair : String × String) (place : List String × Planted) : Prop :=
  ∃ stored v, f₀.cell (.name pair.2) = .ok stored ∧
    (catalog.coercerFor declared).ofStored stored = .ok v ∧
    type.plant (f₀.world.store.nodesOf v) v (Text.steps pair.1) = some place

/-- What a pair plants when its column is read as one of the types that may be asked for. -/
def Catalog.Plants (catalog : Catalog) (f₀ : Frame) (type : DataType) (asked : String → DataType → Prop)
    (pair : String × String) (place : List String × Planted) : Prop :=
  ∃ declared, asked pair.1 declared ∧ catalog.PlantsAs f₀ type declared pair place

/-- Some places hold what was there before and what some pairs plant, each of them something. -/
structure Catalog.PlantsAll (catalog : Catalog) (f₀ : Frame) (type : DataType)
    (asked : String → DataType → Prop) (pairs : List (String × String))
    (parts places : List (List String × Planted)) : Prop where
  old : ∀ place ∈ parts, place ∈ places
  new : ∀ place ∈ places, place ∈ parts ∨ ∃ pair ∈ pairs, catalog.Plants f₀ type asked pair place
  all : ∀ pair ∈ pairs, ∃ place ∈ places, catalog.Plants f₀ type asked pair place

/-- No reference in the store dangles, and none in the row that a request is on. -/
structure Frame.Complete (f : Frame) : Prop where
  store : f.world.store.Complete
  cells : ∀ column v, f.cell column = .ok v → f.world.store.Knows v

/-- What is read from a value of a store is known there. -/
theorem Store.Knows.ofStored {s : Store} {c : Coercer} {v w : Value} (hv : s.Knows v)
    (h : c.ofStored v = .ok w) : s.Knows w := by
  rcases Coercer.ofStored_eq_or_plain h with rfl | hplain
  · exact hv
  · exact .of_plain hplain

/-- The pairs that are still to be written go to other places than those before. -/
structure Pending (type : DataType) (paths : List String) (parts : List (List String × Planted))
    (pairs : List (String × String)) : Prop where
  spreads : type.Spreads paths
  among : ∀ pair ∈ pairs, pair.1 ∈ paths
  distinct : (pairs.map (·.1)).Nodup
  others : ∀ place ∈ parts, ∃ q ∈ paths, type.PlaceOf q place.1 ∧ ∀ pair ∈ pairs, q ≠ pair.1

namespace Pending

variable {type : DataType} {paths : List String} {parts : List (List String × Planted)}
  {pairs : List (String × String)} {pair : String × String} {place : List String × Planted}

theorem clear (h : Pending type paths parts (pair :: pairs)) : ∀ d planted, (d, planted) ∈ parts →
    ¬d <+: Text.steps pair.1 ∧ ¬Text.steps pair.1 <+: d := by
  intro d planted hmem
  obtain ⟨q, hq, hplace, hne⟩ := h.others _ hmem
  have hpair := List.mem_cons_self (a := pair) (l := pairs)
  exact h.spreads.clear hq (h.among pair hpair) (hne pair hpair) hplace

theorem free (h : Pending type paths parts (pair :: pairs)) : ¬InnerOf parts (Text.steps pair.1) := by
  rintro (hnil | ⟨place, hplace, hle, -⟩)
  · exact Text.steps_ne_nil _ hnil
  · exact (h.clear _ _ hplace).2 hle

theorem tail (h : Pending type paths parts (pair :: pairs)) (hplace : type.PlaceOf pair.1 place.1) :
    Pending type paths (place :: parts) pairs where
  spreads := h.spreads
  among other hother := h.among other (List.mem_cons_of_mem _ hother)
  distinct := (List.nodup_cons.1 h.distinct).2
  others := by
    rw [List.forall_mem_cons]
    refine ⟨⟨pair.1, h.among pair (List.mem_cons_self ..), hplace, ?_⟩, fun other hother => ?_⟩
    · rintro other hother he
      exact (List.nodup_cons.1 h.distinct).1 (List.mem_map.2 ⟨other, hother, he.symm⟩)
    · obtain ⟨q, hq, hplace, hne⟩ := h.others other hother
      exact ⟨q, hq, hplace, fun other hother => hne other (List.mem_cons_of_mem _ hother)⟩

end Pending

namespace Filled

variable {catalog : Catalog} {f₀ f g : Frame} {root : ObjectRef} {type declared : DataType}
  {paths : List String} {parts : List (List String × Planted)} {pairs : List (String × String)}
  {pair : String × String} {place : List String × Planted}

theorem inner_cons (d : List String) (planted : Planted) (a : List String) :
    InnerOf parts a ∨ Between [] ([] ++ d) a ↔ InnerOf ((d, planted) :: parts) a := by
  simp [InnerOf, Between, or_comm, or_left_comm]

variable (hf : f₀.Complete) (h : Filled f₀ f root type parts)
  (hp : Pending type paths parts (pair :: pairs))

include hf h hp

/-- Writing one pair plants something exactly when it succeeds. -/
theorem step (hdeclared : catalog.accessor.setterType f.world.store (.object root) pair.1 = .ok declared) :
    (∀ g, (catalog.writePair (.object root) pair).run f = (.ok (), g) →
      ∃ place, catalog.PlantsAs f₀ type declared pair place ∧ Filled f₀ g root type (place :: parts)) ∧
    ∀ place, catalog.PlantsAs f₀ type declared pair place →
      ∃ g, (catalog.writePair (.object root) pair).run f = (.ok (), g) := by
  have hroot : InnerOf parts [] := .inl rfl
  have hinner := h.layout.inner_root hroot
  have htakes := Accessor.takes_of_setterType hdeclared
  have hcell : ∀ column, f.cell column = f₀.cell column := Frame.cell_congr h.row
  -- what comes of the write is known before it is run, for whatever is read from the column
  have hwrite : ∀ stored v, f₀.cell (.name pair.2) = .ok stored →
      (catalog.coercerFor declared).ofStored stored = .ok v → _ :=
    fun stored v hstored hv => h.layout.write hf.store ((hf.cells _ _ hstored).ofStored hv)
      (Text.steps pair.1) (Text.steps_ne_nil _) hroot hinner (fun d planted hd => (hp.clear d planted hd).1)
      hp.free
  refine ⟨fun g hrun => ?_, fun place ⟨stored, v, hstored, hv, hplant⟩ => ?_⟩
  · obtain ⟨stored, v, t, hstored, hv, hset, rfl⟩ := (run_writePair hdeclared).1 hrun
    rw [hcell] at hstored
    have houtcome := hwrite stored v hstored hv
    rw [Accessor.run_set_eq_write htakes] at hset
    rw [hset] at houtcome
    cases hplant : type.plant (f₀.world.store.nodesOf v) v (Text.steps pair.1) with
    | none =>
      rw [hplant] at houtcome
      obtain ⟨e, t, he⟩ := houtcome
      cases he
    | some place =>
      rw [hplant] at houtcome
      obtain ⟨u, hu, hlayout⟩ := houtcome
      cases hu
      have hrow := (Rereads.column (catalog.coercerFor declared) (.name pair.2) f trivial).2.1.row
      refine ⟨place, ⟨stored, v, hstored, hv, hplant⟩, hrow.trans h.row, hlayout.congr (fun a => ?_) ?_⟩
      · exact inner_cons place.1 place.2 a
      · simp [or_comm, Prod.ext_iff]
  · have houtcome := hwrite stored v hstored hv
    rw [hplant] at houtcome
    obtain ⟨u, hrun, -⟩ := houtcome
    exact ⟨_, (run_writePair hdeclared).2 ⟨stored, v, u, (hcell _).trans hstored, hv,
      (Accessor.run_set_eq_write htakes _ _).trans hrun, rfl⟩⟩

/-- What the object tells of the type of a property is the type that is declared at its path, when the
object that holds it is there, and else any type; nothing only where nothing can be planted. -/
theorem asks (htakes : catalog.accessor.Takes (f.world.store.kind root)) :
    (∃ a last, Text.steps pair.1 = a ++ [last] ∧ InnerOf parts a ∧
      catalog.accessor.setterType f.world.store (.object root) pair.1 = type.atPath pair.1) ∨
    2 ≤ (Text.steps pair.1).length ∧
      catalog.accessor.setterType f.world.store (.object root) pair.1 = .ok .object ∨
    (∃ e, catalog.accessor.setterType f.world.store (.object root) pair.1 = .error e) ∧
      ∀ τ place, ¬catalog.PlantsAs f₀ type τ pair place := by
  refine (h.layout.setterType hf.store (.inl rfl) htakes (fun d planted hd => (hp.clear d planted hd).1)
    hp.free).imp_right (Or.imp_right fun ⟨herror, hnone⟩ => ⟨herror, fun τ place hplants => ?_⟩)
  obtain ⟨stored, v, hstored, hv, hplant⟩ := hplants
  rw [hnone v ((hf.cells _ _ hstored).ofStored hv)] at hplant
  cases hplant

omit hf h hp in
/-- What pairs leave that fill an object to the end. -/
theorem run_ok {asked : String → DataType → Prop} (hf : f₀.Complete)
    (hasked : ∀ {f parts pair pairs declared}, Filled f₀ f root type parts →
      Pending type paths parts (pair :: pairs) →
      catalog.accessor.setterType f.world.store (.object root) pair.1 = .ok declared →
      asked pair.1 declared) :
    ∀ {pairs f parts}, Filled f₀ f root type parts → Pending type paths parts pairs →
      (pairs.forM (catalog.writePair (.object root))).run f = (.ok (), g) →
      ∃ places, Filled f₀ g root type places ∧ catalog.PlantsAll f₀ type asked pairs parts places
  | [], f, parts, h, _, hrun => by
    cases hrun
    exact ⟨parts, h, fun _ => id, fun _ => .inl, nofun⟩
  | pair :: pairs, f, parts, h, hp, hrun => by
    obtain ⟨_, u, hone, hrest⟩ := run_bind_eq_ok.1 hrun
    cases hdeclared : catalog.accessor.setterType f.world.store (.object root) pair.1 with
    | error e => cases (run_writePair_error hdeclared).symm.trans hone
    | ok declared =>
      obtain ⟨place, hplants, hu⟩ := (step hf h hp hdeclared).1 u hone
      have hplace : catalog.Plants f₀ type asked pair place :=
        ⟨declared, hasked h hp hdeclared, hplants⟩
      obtain ⟨_, _, _, _, hplant⟩ := hplants
      obtain ⟨places, hg, hall⟩ :=
        run_ok hf hasked hu (hp.tail (DataType.place_of_plant hplant)) hrest
      refine ⟨places, hg, fun other hother => hall.old other (List.mem_cons_of_mem _ hother),
        fun other hother => ?_, List.forall_mem_cons.2 ⟨⟨place, ?_, hplace⟩, hall.all⟩⟩
      -- what is planted behind this pair is older, its own, or of a later pair
      · rcases hall.new other hother with hmem | ⟨pair', hpair', hother⟩
        · rcases List.mem_cons.1 hmem with rfl | hmem
          · exact .inr ⟨pair, List.mem_cons_self .., hplace⟩
          · exact .inl hmem
        · exact .inr ⟨pair', List.mem_cons_of_mem _ hpair', hother⟩
      · exact hall.old place (List.mem_cons_self ..)

end Filled

end RowMapper
