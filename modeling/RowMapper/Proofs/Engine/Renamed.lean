/-
Requests under other names. Two requests on stores that hold the same objects under two sets of names,
which read the same rows with the same replies behind them, do the same, up to the names
(`Renaming.onRequest`). What a request remembers of other rows only matters at the keys that its own
rows have (`Renaming.Scope.keys`).
-/
import RowMapper.Proofs.Access.Renaming
import RowMapper.Proofs.Engine.Key
import RowMapper.Proofs.Engine.Loads
import RowMapper.Proofs.Request.Identity

namespace RowMapper

def Emitted.rename (φ : Renaming) (e : Emitted) : Emitted where
  object := e.object.rename φ
  content := e.content.rename φ.object φ.lazy

/-- The values of a reply, of its rows, its output parameters and the parameters it is for. -/
def Registration.values (r : Registration) : List Value := r.reply.cells ++ r.params.getD []

/-- In what two requests are the same. -/
structure Renaming.Scope where
  /-- The maps that rows are read with, those of nested selects included. -/
  maps : ResultMap → Prop
  /-- The maps that their own rows are read with. -/
  reading : ResultMap → Prop
  /-- The statements that their nested selects run. -/
  statements : Statement → Prop
  /-- The maps and keys by which they remember and assemble the same objects. -/
  keys : String → String → Prop
  /-- The replies that the database has for them. -/
  registrations : List Registration
  /-- The row that they stay on. Requests that may leave theirs are the same also in the rows ahead,
  what they gave, and what they say of themselves. -/
  row : Option (Phase × Option (List String × Option (List Value)))

/-- Whole requests, which read rows with all maps of their scope. -/
structure Renaming.Scope.Whole (x : Renaming.Scope) : Prop where
  row : x.row = none
  reading : ∀ m, x.maps m → x.reading m

/-- The catalog leads from the maps and statements of a scope to no others, and neither it nor the
database gives values that have other names. -/
structure Renaming.Scope.Closed (x : Renaming.Scope) (φ : Renaming) (session : Session) : Prop where
  reading : ∀ {m}, x.reading m → x.maps m
  nestedReading : ∀ {m mapping id n}, x.reading m → mapping ∈ m.declared →
    mapping.route = .nestedMap id → session.catalog.resultMap id = .ok n → x.reading n
  own : ∀ {statement m}, x.statements statement →
    session.catalog.statementResultMap statement = .ok (some m) → x.maps m
  subMap : ∀ {m d value id n}, x.maps m → m.discriminator = some d → d.subMap? value = some id →
    session.catalog.resultMap id = .ok n → x.maps n
  nestedMap : ∀ {m mapping id n}, x.maps m → mapping ∈ m.declared → mapping.route = .nestedMap id →
    session.catalog.resultMap id = .ok n → x.maps n
  nestedSelect : ∀ {m mapping id statement}, x.maps m → mapping ∈ m.declared →
    mapping.route = .nestedSelect id → session.catalog.statement id = .ok statement →
    x.statements statement
  again : ∀ {statement other}, x.statements statement →
    session.catalog.statement statement.id = .ok other → x.statements other
  loader : ∀ value, session.catalog.loader = .fixed value → value.rename φ = value
  replies : ∀ r ∈ x.registrations, ∀ v ∈ r.values, v.rename φ = v

/-- Two requests that are the same in a scope, up to the names. -/
structure Renaming.Frames (φ : Renaming) (x : Renaming.Scope) (f g : Frame) : Prop where
  copies : φ.Copies f.world.store g.world.store
  registrations : f.world.database.registrations = x.registrations
  registrations' : g.world.database.registrations = x.registrations
  derived : ∀ m home, x.maps m → m.mappings = .auto home →
    Table.get? (home, m.id) g.world.derived = Table.get? (home, m.id) f.world.derived
  row : g.request.row = f.request.row
  stays : ∀ row, x.row = some row → f.request.row = row
  cells : ∀ rows, f.request.rows = some rows → ∀ v ∈ rows.cells, v.rename φ = v
  mappings : ∀ m, x.reading m → Table.get? m.id g.request.mappings = Table.get? m.id f.request.mappings
  installed : ∀ m, x.reading m → ∀ mappings, Table.get? m.id f.request.mappings = some mappings →
    ∀ mapping ∈ mappings, mapping.route = .column
  identity : ∀ id key, x.keys id key →
    g.request.identity.get? id key = (f.request.identity.get? id key).map (·.rename φ)
  assembling : ∀ n id key, x.keys id key →
    ((id, key) ∈ g.request.assembling.drop n ↔ (id, key) ∈ f.request.assembling.drop n)
  whole : x.row = none → g.request.rows = f.request.rows ∧ g.request.context = f.request.context ∧
    g.emitted = f.emitted.map (Emitted.rename φ)

/-- Requests that are the same in a scope, up to the names. -/
def Renaming.onRequest (φ : Renaming) (x : Renaming.Scope) (session : Session) : Correspondence where
  paired := φ.Frames x
  later _ _ := True
  refl _ := trivial
  trans _ _ := trivial
  values _ v w := w = v.rename φ
  objects _ v w := w = v.rename φ
  parents _ _ mappings v w := w = v.rename φ ∧ ∀ mapping ∈ mappings, ∀ id child,
    mapping.route = .nestedMap id → session.catalog.resultMap id = .ok child → x.reading child
  collections _ _ _ _ := True
  maps := x.reading
  statements := x.statements
  readings f m values := ∀ key, m.uniqueKey f.world.store (f.mappings m) values = some key →
    x.keys m.id key
  values_later _ := id
  objects_later _ := id
  parents_later _ := id
  collections_later _ := id

namespace Renaming

variable {φ : Renaming} {x : Scope} {session : Session} {load load' : Load} {f g : Frame}
  {m : ResultMap} {α β : Type}

/-! ## Steps -/

/-- Stores that are edited in step. -/
theorem edit_inStep {edit : Edit α} {edit' : Edit β} {S : Store → α → β → Prop}
    {Q : Frame → α → β → Prop} (hp : φ.Frames x f g)
    (h : φ.onStore.InStep S edit edit' f.world.store g.world.store)
    (hq : ∀ (s : Store) a b, S s a b → Q { f with world := { f.world with store := s } } a b) :
    (φ.onRequest x session).InStep Q (Frame.edit edit) (Frame.edit edit') f g := by
  refine .inr ?_
  obtain ⟨hstores, -, ho⟩ := h.resolve_left fun ⟨_, hloose, _⟩ => hloose
  rw [run_edit, run_edit]
  exact ⟨{ hp with copies := hstores }, trivial, (ho.mapError Stop.failed).imp fun a b => hq _ a b⟩

theorem values_eq_map {s : Frame} {values values' : List Value}
    (h : List.Forall₂ ((φ.onRequest x session).values s) values values') :
    values' = values.map (·.rename φ) := by
  induction h with
  | nil => rfl
  | cons hv _ ih => rw [hv, ih]; rfl

theorem forall₂_values (s : Frame) (values : List Value) :
    List.Forall₂ ((φ.onRequest x session).values s) values (values.map (·.rename φ)) := by
  induction values with
  | nil => exact .nil
  | cons v values ih => exact .cons rfl ih

theorem context_inStep (change : ErrorContext → ErrorContext) (hp : φ.Frames x f g) :
    (φ.onRequest x session).InStep Pairing.Any (Frame.modifyContext change)
      (Frame.modifyContext change) f g := by
  refine .modify { hp with whole := fun hx => ?_ } trivial
  obtain ⟨hrows, hcontext, hemitted⟩ := hp.whole hx
  exact ⟨hrows, congrArg change hcontext, hemitted⟩

/-- Reading a column that no name matters for. -/
theorem column_inStep (c : Coercer) (column : Column) (hp : φ.Frames x f g) :
    (φ.onRequest x session).InStep (φ.onRequest x session).values (Frame.readColumn c column)
      (Frame.readColumn c column) f g := by
  have houtcome := column_congr hp.row.symm c column
  have hrow : ∀ f : Frame, ((Frame.readColumn c column).run f).2.request.row = f.request.row :=
    fun f => (OnRow.column (R := World.Any) (x := True) c column f trivial).2.1.row
  rcases rowSetToRead_congr hp.row.symm with ⟨e, hf, hg⟩ | ⟨rows, rows', hf, hg, -, -⟩
  · refine .inr ?_
    unfold Frame.readColumn
    rw [run_onRows_error hf, run_onRows_error hg]
    exact ⟨hp, trivial, rfl⟩
  · refine .inr ⟨?_, trivial, ?_⟩
    · have hrows := hrow f
      have hrows' := hrow g
      unfold Frame.readColumn at hrows hrows' ⊢
      rw [run_onRows_ok hf] at hrows ⊢
      rw [run_onRows_ok hg] at hrows' ⊢
      refine { hp with
        row := (hrows'.trans hp.row).trans hrows.symm
        stays := fun row hx => hrows.trans (hp.stays row hx)
        cells := ?_
        whole := fun hx => ?_ }
      · intro read hread v hv
        obtain rfl := Option.some.inj hread
        rw [Coercer.readColumn_cells] at hv
        exact hp.cells rows (Request.rows_of_rowSetToRead hf) v hv
      · obtain ⟨hsame, hcontext, hemitted⟩ := hp.whole hx
        rw [Request.rows_of_rowSetToRead hf, Request.rows_of_rowSetToRead hg] at hsame
        obtain rfl := Option.some.inj hsame
        exact ⟨rfl, hcontext, hemitted⟩
    · rw [← houtcome]
      refine .same fun v hv => ?_
      unfold Frame.readColumn at hv
      rw [run_onRows_ok hf] at hv
      have hread : (c.readColumn rows column).1 = .ok v := by
        cases hc : (c.readColumn rows column).1 with
        | error e => rw [hc] at hv; cases hv
        | ok w => rw [hc] at hv; cases hv; rfl
      rcases Coercer.readColumn_mem_or_plain hread with hmem | hplain
      · exact (hp.cells rows (Request.rows_of_rowSetToRead hf) v hmem).symm
      · exact hplain.rename.symm

theorem mappings_eq (hp : φ.Frames x f g) (hm : x.reading m) (hmap : x.maps m) :
    f.mappings m = g.mappings m := by
  have hderived : f.world.declaredMappings m = g.world.declaredMappings m := by
    unfold World.declaredMappings
    cases hd : m.mappings with
    | declared mappings => rfl
    | auto home => simp only [hp.derived m home hmap hd]
  unfold Frame.mappings
  rw [hp.mappings m hm, hderived]

/-! ## Reading and assembling -/

section Laws

variable (hx : x.Closed φ session)

include hx

/-- Reading a row is the same up to the names, if its nested selects are. -/
theorem reads
    (hkeys : ∀ {f g h m values}, x.reading m → φ.Frames x f g →
      (m.readRow session load).run f = (.ok values, h) →
      ∀ key, m.uniqueKey h.world.store (h.mappings m) values = some key → x.keys m.id key)
    (hload : ∀ {f g : Frame} (statement : Statement) (target : DataType) (v : Value), φ.Frames x f g →
      x.statements statement →
      (φ.onRequest x session).InStep (φ.onRequest x session).values
        (Frame.onWorld (session.loadResult load statement.id v target))
        (Frame.onWorld (session.loadResult load' statement.id (v.rename φ) target)) f g) :
    (φ.onRequest x session).Reads session load load' where
  isNull h := by rw [h, Value.isNull_rename]
  null := rfl
  literal h := (Coercer.valueOf_plain _ h).rename.symm
  text hp h := by rw [h, hp.copies.text]
  mappings hp hm := mappings_eq hp hm (hx.reading hm)
  context change hp := context_inStep change hp
  found b hp := .modify { hp with row := hp.row, stays := hp.stays } trivial
  column c column hp := column_inStep c column hp
  instantiate type hp := edit_inStep hp (φ.writes.instantiate type hp.copies) fun _ _ _ => id
  document node hp := edit_inStep hp (φ.writes.newObject (.dom node) hp.copies nofun) fun _ _ _ => id
  setterType := by
    rintro f g v w path hp rfl
    exact φ.writes.setterType_path _ path hp.copies fun step _ _ => φ.writes.roots step rfl
  set := by
    rintro f g v w a b path hp rfl rfl
    exact edit_inStep hp (φ.writes.set _ path hp.copies (fun step _ _ => φ.writes.roots step rfl) rfl)
      fun _ _ _ _ => trivial
  nestedSelect hp hm hmem hroute hs :=
    hx.nestedSelect (hx.reading hm)
      (mem_declared_of_route (hp.installed _ hm) hmem (by rw [hroute]; nofun)) hroute hs
  readings hm hp hrun := hkeys hm hp hrun
  load := by
    rintro f g v w statement target hp hs rfl
    exact hload statement target v hp hs

end Laws

/-! ## Assembling -/

/-- A container is made for a slot under whatever names. -/
theorem withContainer_rename (type : DataType) (property : String) (v : Value) :
    withContainer type property (v.rename φ) =
      (withContainer type property v).map (·.rename φ) := by
  unfold withContainer
  rw [Value.isNull_rename]
  split
  · cases hv : DataType.newCollection (some type) property with
    | error e => rfl
    | ok container => exact congrArg Except.ok (DataType.newCollection_plain _ hv).rename.symm
  · rfl

theorem ensureContainer_rename (type : DataType) (property : String) (s t : Store) (v : Value) :
    ensureContainer type property t (v.rename φ) =
      ((ensureContainer type property s v).1.rename φ, (ensureContainer type property s v).2) := by
  unfold ensureContainer
  rw [withContainer_rename]
  cases withContainer type property v <;> rfl

theorem addElement_rename (type : DataType) (property : String) (element v : Value) {s t : Store}
    (h : φ.Copies s t) :
    addElement type property (element.rename φ) t (v.rename φ) =
      ((addElement type property element s v).1.rename φ, (addElement type property element s v).2) := by
  unfold addElement
  rw [withContainer_rename]
  cases withContainer type property v with
  | error e => rfl
  | ok container => exact h.grow container element

theorem collectionType (mapping : ResultMapping) (v : Value) (hp : φ.Frames x f g) :
    (φ.onRequest x session).InStep (fun _ a b => a = b)
      (mapping.collectionType session.catalog.accessor v)
      (mapping.collectionType session.catalog.accessor (v.rename φ)) f g := by
  unfold ResultMapping.collectionType
  split
  · exact .pure hp rfl
  · refine .read hp ?_ fun _ _ => rfl
    exact φ.writes.setterType_path _ _ hp.copies fun step _ _ => φ.writes.roots step rfl

/-- An object that one request remembers is remembered by the other, under its other name. -/
theorem remember_inStep (m : ResultMap) (key : Option String) (v : Value) (hp : φ.Frames x f g) :
    (φ.onRequest x session).InStep Pairing.Any (Frame.remember m.id key v)
      (Frame.remember m.id key (v.rename φ)) f g := by
  cases key with
  | none => exact .pure hp trivial
  | some key =>
    refine .modify { hp with identity := fun id k hk => ?_ } trivial
    by_cases hsame : id = m.id ∧ k = key
    · obtain ⟨rfl, rfl⟩ := hsame
      simp [IdentityTable.get?_insert_self]
    · have hne : id ≠ m.id ∨ k ≠ key := by
        by_cases hid : id = m.id
        · exact .inr fun hk => hsame ⟨hid, hk⟩
        · exact .inl hid
      simp only [IdentityTable.get?_insert_of_ne hne]
      exact hp.identity id k hk

theorem mark_frames (id : String) (key : Option String) (hp : φ.Frames x f g) :
    φ.Frames x (f.mark id key) (g.mark id key) := by
  cases key with
  | none => exact hp
  | some key =>
    refine { hp with assembling := fun n id' key' hk => ?_ }
    cases n with
    | zero =>
      have hrest := hp.assembling 0 id' key' hk
      simpa [Frame.mark, Request.pushAssembling] using or_congr_right hrest
    | succ n => exact hp.assembling n id' key' hk

theorem unmark_frames (key : Option String) (hp : φ.Frames x f g) :
    φ.Frames x (f.unmark key) (g.unmark key) := by
  cases key with
  | none => exact hp
  | some key =>
    refine { hp with assembling := fun n id' key' hk => ?_ }
    have hrest := hp.assembling (n + 1) id' key' hk
    simpa [Frame.unmark, Request.popAssembling] using hrest

section Laws

variable (hx : x.Closed φ session)

include hx

/-- Assembling is the same up to the names, if reading rows is. -/
theorem assembles (hreads : (φ.onRequest x session).Scans session load load') :
    (φ.onRequest x session).Assembles session load load' where
  toScans := hreads
  nestedMap hvw hmem hroute hchild := hvw.2 _ hmem _ _ hroute hchild
  isAssembling := by
    intro f g m values key hp _ _ hreadings hkey
    have hmem := hp.assembling 0 m.id key (hreadings key hkey)
    simp only [List.drop_zero] at hmem
    simp [Request.isAssembling, List.contains_eq_mem, hmem]
  known := by
    intro f g m values key hp hm _ hreadings hkey
    rw [hp.identity m.id key (hreadings key hkey)]
    cases f.request.identity.get? m.id key with
    | none => exact .none
    | some object =>
      refine .some ⟨rfl, fun mapping hmem id child hroute => ?_⟩
      exact hx.nestedReading hm (mem_declared_of_route (hp.installed _ hm) hmem (by rw [hroute]; nofun)) hroute
  buildNew := by
    intro f g m values values' key hp hm _ hv _
    obtain rfl := values_eq_map hv
    have hnested : ∀ mapping ∈ f.mappings m, ∀ id child, mapping.route = .nestedMap id →
        session.catalog.resultMap id = .ok child → x.reading child := fun mapping hmem id child hroute =>
      hx.nestedReading hm (mem_declared_of_route (hp.installed _ hm) hmem (by rw [hroute]; nofun)) hroute
    unfold ResultMap.buildNew
    have hset := φ.writes.setData m.exchange session.catalog.accessor m (f.mappings m) hp.copies .none hv
      record_values
    refine Pairing.InStep.bind (Q := fun _ v w => w = v.rename φ)
      (edit_inStep hp hset fun _ _ _ => id) ?_
    rintro u u' v w - hp rfl
    refine (remember_inStep m key v hp).bind fun u₁ u₂ _ _ _ hp _ => ?_
    exact .pure hp ⟨rfl, rfl, hnested⟩
  collectionType := by
    intro f g m mappings v w mapping hp hvw _ _
    obtain rfl := hvw.1
    exact (collectionType mapping v hp).imp fun _ _ _ _ h => ⟨h, trivial⟩
  ensure := by
    intro f g m mappings v w type mapping hp hvw _ _ _
    obtain rfl := hvw.1
    exact edit_inStep hp (update _ _ v (fun v _ => ensureContainer_rename _ _ _ _ v) hp.copies)
      fun _ _ _ _ => trivial
  add := by
    intro f g m mappings v w type a b mapping hp hvw _ _ _ hab
    obtain rfl := hvw.1
    obtain rfl := hab
    exact edit_inStep hp (update _ _ v (fun v h => addElement_rename _ _ _ v h) hp.copies)
      fun _ _ _ _ => trivial
  mark hp _ _ := ⟨mark_frames _ _ hp, trivial⟩
  unmark hp _ _ := ⟨unmark_frames _ hp, trivial⟩

end Laws

end Renaming

end RowMapper
