/-
One map on one row. A map that groups no rows makes the same of a row whether it is nested in another
map or a select has it (`Session.nestedElement_selected`), unless a grouped map nested in it finds an
object that the request remembers from elsewhere.
-/
import RowMapper.Proofs.Delivery.Independence
import RowMapper.Proofs.Delivery.Windows

namespace RowMapper

open Relation

variable {session : Session} {load load' : Load} {build : Build} {f g : Frame} {m : ResultMap}
  {mapping : ResultMapping} {child : String} {parent : Value}

/-! ## What nested maps and selects have in common -/

/-- Reads the current row with a map, and builds the object of its values, if it holds any data. -/
def ResultMap.read (m : ResultMap) (session : Session) (load : Load) (build : Build) :
    Run Frame (Option Value) := do
  let values ← m.readRow session load
  let found ← Run.gets fun frame : Frame => frame.request.rowDataFound
  if found then build m values else return none

/-- Makes the collection of a parent, if it is not there, and gives its type. -/
def ResultMapping.openCollection (mapping : ResultMapping) (accessor : Accessor) (parent : Value) :
    Run Frame DataType := do
  let type ← mapping.collectionType accessor parent
  Frame.edit (accessor.update parent mapping.property (ensureContainer type mapping.property))
  return type

/-- Making a collection changes objects and nothing else. -/
theorem ResultMapping.openCollection_eq_ok {accessor : Accessor} {type : DataType}
    (h : (mapping.openCollection accessor parent).run f = (.ok type, g)) :
    ∃ store, g = { f with world := { f.world with store } } := by
  obtain ⟨type', s, htype, h⟩ := run_bind_eq_ok.1 h
  obtain ⟨_, t, hedit, hpure⟩ := run_bind_eq_ok.1 h
  cases hpure
  obtain ⟨store, -, rfl⟩ := run_edit_eq_ok.1 hedit
  unfold collectionType at htype
  split at htype
  · cases htype
    exact ⟨store, rfl⟩
  · obtain rfl := congrArg Prod.snd htype
    exact ⟨store, rfl⟩

/-- Puts an element, if there is one, behind those in the collection of a parent. -/
def ResultMapping.append (mapping : ResultMapping) (accessor : Accessor) (parent : Value)
    (type : DataType) : Option Value → Run Frame Unit
  | some v => Frame.edit (accessor.update parent mapping.property (addElement type mapping.property v))
  | none => return ()

theorem nestedElement_eq : nestedElement session load build mapping child parent = (do
    let m ← Run.ofExcept (session.catalog.resultMap child)
    let type ← mapping.openCollection session.catalog.accessor parent
    let out ← m.read session load build
    mapping.append session.catalog.accessor parent type out) := by
  unfold nestedElement readElement ResultMapping.openCollection ResultMap.read
  simp only [bind_assoc, pure_bind]
  refine bind_congr fun m => bind_congr fun type => bind_congr fun _ => bind_congr fun values => ?_
  refine bind_congr fun found => ?_
  cases found with
  | false => rfl
  | true =>
    refine bind_congr fun out => ?_
    cases out <;> rfl

theorem Session.readObject_eq (m : ResultMap) (handler : Handler) :
    session.readObject load m none handler = (do
      let effective ← m.resolveSubMap session.catalog
      match ← effective.read session load (Call.builds session load nestingBound) with
      | some object => Session.emit handler object
      | none => return ()) := by
  unfold readObject readValues ResultMap.read
  simp only [bind_assoc, pure_bind]
  refine bind_congr fun effective => bind_congr fun values => bind_congr fun found => ?_
  cases found <;> rfl

/-- A row is read and its object built in step. -/
theorem Correspondence.Assembles.read {K : Correspondence} (h : K.Assembles session load load')
    {bound bound' : Nat} (hd : K.Depths bound bound') (hm : K.maps m) (hp : K.paired f g) :
    K.InStep (fun u => Option.Rel (K.objects u)) (m.read session load (Call.builds session load bound))
      (m.read session load' (Call.builds session load' bound')) f g := by
  unfold ResultMap.read
  refine (h.readRow hm hp).bind_run fun s t values values' hrun hrun' _ hp hv => ?_
  refine .gets_bind ?_
  rw [readRow_found hrun, readRow_found hrun', h.any_found hv.1]
  split
  · exact h.build hd hm hp hv.1 hv.2
  · exact .pure hp .none

/-- Greater bounds on the depth read the same. -/
theorem ResultMap.read_deeper {depth depth' bound bound' : Nat} {out : Option Value}
    (hdepth : depth ≤ depth') (hbound : bound ≤ bound')
    (h : (m.read session (session.load depth) (Call.builds session (session.load depth) bound)).run f =
      (.ok out, g)) :
    (m.read session (session.load depth') (Call.builds session (session.load depth') bound')).run f =
      (.ok out, g) := by
  have hassembles : (Trail.any.growth True).Assembles session (session.load depth)
      (session.load depth') := (Trail.answers_load session (.inr ⟨⟨trivial, rfl⟩, hdepth⟩)).toAssembles
  have hstep := hassembles.read (m := m) (f := f) (.inr ⟨⟨trivial, rfl⟩, hbound⟩) trivial rfl
  refine Trail.eq_deeper (hstep.imp fun _ _ _ _ hrel => ?_) h
  cases hrel with
  | none => rfl
  | some hv => exact congrArg some hv

/-- Reading and building give nothing to the receiver. -/
theorem ResultMap.emitted_read {depth bound : Nat} {outcome : Except Stop (Option Value)}
    (h : (m.read session (session.load depth) (Call.builds session (session.load depth) bound)).run f =
      (outcome, g)) : g.emitted = f.emitted := by
  have hassembles : Trail.silent.growth.Assembles session (session.load depth) (session.load depth) :=
    Trail.assembles (Trail.reads_load session depth) fun _ _ => rfl
  exact (Trail.later (hassembles.read (.inl rfl) trivial rfl) h).2

/-! ## A select of one row -/

/-- The answer whose rows are one row. -/
def Response.onlyRow (columns : List String) (row : List Value) (response : Response) : Response :=
  { response with rows := .rows { columns, rows := [row] } }

/-- The discriminators of the map lead to no other map on a row. -/
def ResultMap.StaysOn (m : ResultMap) (catalog : Catalog)
    (row : Phase × Option (List String × Option (List Value))) : Prop :=
  ∀ f n g, f.request.row = row → (m.resolveSubMap catalog).run f = (.ok n, g) → n = m

/-- A request that started in a world is on the only row of a select, and remembers nothing. -/
structure Frame.OnOnly (f : Frame) (w : World) (columns : List String) (values : List Value) : Prop where
  store : f.world.store = w.store
  registrations : f.world.database.registrations = w.database.registrations
  derived : f.world.derived = w.derived
  row : f.request.row = (.executing, some (columns, some values))
  cells : ∀ rows, f.request.rows = some rows → ∀ v ∈ rows.cells, v ∈ values
  identity : f.request.identity = {}
  assembling : f.request.assembling = []
  mappings : f.request.mappings = []
  emitted : f.emitted = #[]

namespace Frame.OnOnly

variable {w : World} {columns : List String} {values : List Value}

theorem column (c : Coercer) (column : Column) :
    Keeps (fun f : Frame => f.OnOnly w columns values) (fun _ _ => True) (Stop.Allowed True) Always
      (Frame.readColumn c column) := by
  intro f h
  have hrow := (OnRow.column (R := World.Any) (x := True) c column f trivial).2.1.row
  unfold Frame.readColumn at hrow ⊢
  cases hr : f.request.rowSetToRead with
  | error e => rw [run_onRows_error hr]; exact ⟨h, trivial, trivial⟩
  | ok rows =>
    rw [run_onRows_ok hr] at hrow ⊢
    refine ⟨{ h with row := hrow.trans h.row, cells := ?_ }, trivial, .mapError fun _ _ => trivial⟩
    intro read hread v hv
    cases hread
    rw [Coercer.readColumn_cells] at hv
    exact h.cells rows (Request.rows_of_rowSetToRead hr) v hv

/-- Choosing the map for the row changes nothing that matters. -/
theorem resolveSubMap (h : f.OnOnly w columns values) (m : ResultMap) (catalog : Catalog) :
    ((m.resolveSubMap catalog).run f).2.OnOnly w columns values := by
  have : Std.Refl fun _ _ : Frame => True := ⟨fun _ => trivial⟩
  have : IsTrans Frame fun _ _ => True := ⟨fun _ _ _ _ _ => trivial⟩
  exact (m.keeps_resolveSubMap column catalog f h).1

end Frame.OnOnly

namespace Session

variable {statement : Statement} {parameter : Value} {resultMap : Option ResultMap}
  {response : Response} {w : World} {columns : List String} {values : List Value} {id : String}

/-- A select of one row reads that row, and gives its object. -/
theorem queryAnswered_onlyRow {load : Load} (hstatement : session.catalog.statement id = .ok statement)
    (hmap : session.catalog.statementResultMap statement = .ok (some m)) (hm : m.isAuto = false)
    (hok : (session.queryAnswered load (·.onlyRow columns values) id parameter none {} .any w).1.result
      = .ok ()) :
    ∃ f g, f.OnOnly w columns values ∧
      (session.readObject load m none .any).run f = (.ok (), g) ∧
      (session.queryAnswered load (·.onlyRow columns values) id parameter none {} .any w).1.emitted =
        g.emitted.toList := by
  unfold queryAnswered at hok ⊢
  rw [hstatement] at hok ⊢
  dsimp only at hok ⊢
  generalize hrun : (Run.mapError Frame.explain _).run _ = result at hok ⊢
  obtain ⟨outcome, last⟩ := result
  cases hok
  unfold runAnswered at hrun
  obtain ⟨⟨resultMap, response⟩, submitted, hsubmit, hrun⟩ :=
    run_bind_eq_ok.1 (run_mapError_eq_ok.1 hrun)
  obtain ⟨hfound, database, context, hregistrations, rfl⟩ := submit_eq_ok hsubmit
  cases hmap.symm.trans hfound
  obtain ⟨_, read, hread, hwrite⟩ := run_bind_eq_ok.1 hrun
  obtain ⟨_, opened, hopen, hrows⟩ := run_bind_eq_ok.1 hread
  have hopened := openRows_eq_ok hm hopen
  have hset : opened.request.rowSetToRead = .ok { columns, rows := [values] } := by
    rw [hopened]
    rfl
  have heach : unreadResult ((readRows (session.readObject load m none .any) 2 0 none).run opened) =
      unreadResult ((readEach (session.readObject load m none .any) [values]).run opened) :=
    readRows_eq_readEach m .any 2 0 none rfl hset hset rfl (Nat.lt_succ_self 1)
  have hrows : (readRows (session.readObject load m none .any) 2 0 none).run opened = (.ok (), read) :=
    hrows
  rw [hrows] at heach
  rcases hone : (readEach (session.readObject load m none .any) [values]).run opened with ⟨outcome, left⟩
  obtain ⟨rfl, hleft⟩ := Prod.mk.inj (heach.trans (congrArg unreadResult hone))
  obtain ⟨_, given, hgiven, hleft'⟩ := run_bind_eq_ok.1 hone
  cases hleft'
  obtain ⟨_, moved, hmove, hread⟩ := run_bind_eq_ok.1 hgiven
  rw [run_moveTo hset] at hmove
  cases hmove
  refine ⟨_, _, ?_, hread, ?_⟩
  · subst hopened
    exact
      { store := rfl
        registrations := hregistrations
        derived := rfl
        row := rfl
        cells := by
          intro rows hrows v hv
          cases hrows
          simpa [RowSet.cells] using hv
        identity := rfl
        assembling := rfl
        mappings := rfl
        emitted := rfl }
  · have hemitted : read.emitted = left.emitted := Frame.view_eq Frame.emitted (fun _ => rfl) hleft
    have hsilent : last.emitted = read.emitted := (Trail.later (τ := Trail.silent)
      (Trail.writeOutputs statement parameter response.outputs read) hwrite).2
    show last.emitted.toList = left.emitted.toList
    rw [hsilent, hemitted]

/-- A select of one row reads it with its map, and gives what the map makes of it, if its discriminators
lead to no other map. -/
theorem queryAnswered_read (hstatement : session.catalog.statement id = .ok statement)
    (hmap : session.catalog.statementResultMap statement = .ok (some m)) (hm : m.isAuto = false)
    (hstays : m.StaysOn session.catalog (.executing, some (columns, some values)))
    (hok : (session.queryAnswered session.loader (·.onlyRow columns values) id parameter none {} .any
      w).1.result = .ok ()) :
    ∃ f out g, f.OnOnly w columns values ∧
      (m.read session session.loader (Call.builds session session.loader nestingBound)).run f =
        (.ok out, g) ∧
      (session.queryAnswered session.loader (·.onlyRow columns values) id parameter none {} .any
        w).1.emitted = (out.map fun v => ⟨v, g.world.store.content v⟩).toList := by
  obtain ⟨f, last, hf, hobject, hemitted⟩ := queryAnswered_onlyRow hstatement hmap hm hok
  rw [readObject_eq] at hobject
  obtain ⟨n, chosen, hresolve, hread⟩ := run_bind_eq_ok.1 hobject
  obtain rfl := hstays f n chosen hf.row hresolve
  have hchosen : chosen.OnOnly w columns values := by
    have h := hf.resolveSubMap n session.catalog
    rwa [hresolve] at h
  obtain ⟨out, g, hread, hgive⟩ := run_bind_eq_ok.1 hread
  refine ⟨chosen, out, g, hchosen, hread, ?_⟩
  have hnone : g.emitted = #[] := (ResultMap.emitted_read hread).trans hchosen.emitted
  rw [hemitted]
  cases out with
  | none =>
    cases hgive
    rw [hnone]
    rfl
  | some v =>
    obtain ⟨_, given, hpush, hreceived⟩ := run_bind_eq_ok.1 hgive
    cases hpush
    obtain rfl := congrArg Prod.snd hreceived
    show (g.emitted.push _).toList = _
    rw [hnone]
    rfl

end Session

/-! ## The same row, nested and selected -/

/-- A map that is nested in another, at any depth, or is that map itself. -/
def Catalog.NestedIn (c : Catalog) (m n : ResultMap) : Prop :=
  c.resultMap n.id = .ok n ∧ ReflTransGen c.Nests m.id n.id

theorem Catalog.ReachesMap.nested {c : Catalog} {id key : String} {n : ResultMap}
    (hi : Table.Indexed ResultMap.id c.resultMaps) (hm : c.ReachesMap id m)
    (hnests : ReflTransGen c.Nests m.id key) (hn : c.resultMap key = .ok n) : c.ReachesMap id n := by
  induction hnests generalizing n with
  | refl =>
    cases (hm.registered hi).symm.trans hn
    exact hm
  | tail _ hnest ih =>
    obtain ⟨k, hk, mapping, hmem, hroute⟩ := hnest
    exact .nestedMap (ih hk) hmem hroute hn

/-- The map reads a row by the key, with whatever objects there are. -/
def ResultMap.KeyOnRow (m : ResultMap) (session : Session) (registrations : List Registration)
    (row : Phase × Option (List String × Option (List Value))) (key : String) : Prop :=
  ∃ f g values, f.request.row = row ∧ f.world.database.registrations = registrations ∧
    (m.readRow session session.loader).run f = (.ok values, g) ∧
    m.uniqueKey g.world.store (g.mappings m) values = some key

/-- A request that reads its row with the map is the same as that of a select with the map in the maps
nested there, and in the keys that it does not know. -/
def Frame.reading (f : Frame) (session : Session) (id : String) (m : ResultMap) : Renaming.Scope where
  maps := session.catalog.ReachesMap id
  reading := session.catalog.NestedIn m
  statements := session.catalog.ReachesStatement id
  keys id key := f.request.identity.get? id key = none ∧ (id, key) ∉ f.request.assembling
  registrations := f.world.database.registrations
  row := some f.request.row

namespace Session

variable {φ : Renaming} {statement : Statement} {parameter : Value} {w : World} {type : DataType}
  {columns : List String} {values : List Value} {id : String} {u : Frame}

theorem reading_closed (hmaps : Table.Indexed ResultMap.id session.catalog.resultMaps)
    (hstatements : Table.Indexed Statement.id session.catalog.statements)
    (hreached : session.catalog.ReachesMap id m)
    (hloader : ∀ v, session.catalog.loader = .fixed v → v.rename φ = v)
    (hreplies : ∀ r ∈ u.world.database.registrations, ∀ v ∈ r.values, v.rename φ = v) :
    (u.reading session id m).Closed φ session :=
  have hreached' : (session.catalog.reached id u.world.database.registrations).Closed φ session :=
    Catalog.reached_closed hstatements hloader hreplies
  { hreached' with
    reading := fun ⟨hn, hnests⟩ => hreached.nested hmaps hnests hn
    nestedReading := by
      rintro n mapping key k ⟨hn, hnests⟩ hmem hroute hk
      obtain rfl := Catalog.resultMap_id hmaps hk
      exact ⟨hk, hnests.tail ⟨n, hn, mapping, hmem, hroute⟩⟩ }

/-- The request that reads its row with the map, and that of a select of the row. -/
theorem reading_frames (hf : f.OnOnly w columns values)
    (hrow : u.request.row = (.executing, some (columns, some values)))
    (hremap : ∀ n, session.catalog.NestedIn m n → Table.get? n.id u.request.mappings = none)
    (hcopies : φ.Copies w.store u.world.store)
    (hregistrations : w.database.registrations = u.world.database.registrations)
    (hderived : ∀ n home, session.catalog.ReachesMap id n → n.mappings = .auto home →
      Table.get? (home, n.id) u.world.derived = Table.get? (home, n.id) w.derived)
    (hvalues : ∀ v ∈ values, v.rename φ = v) : φ.Frames (u.reading session id m) f u where
  copies := hf.store ▸ hcopies
  registrations := hf.registrations.trans hregistrations
  registrations' := rfl
  derived n home hn hauto := hf.derived ▸ hderived n home hn hauto
  row := hrow.trans hf.row.symm
  stays row h := by
    cases h
    exact hf.row.trans hrow.symm
  cells rows hrows v hv := hvalues v (hf.cells rows hrows v hv)
  mappings n hn := by rw [hf.mappings, hremap n hn]; rfl
  installed n hn mappings h := by rw [hf.mappings] at h; cases h
  identity id key hk := by rw [hf.identity, hk.1]; rfl
  assembling n id key hk := by
    rw [hf.assembling]
    exact ⟨fun h => absurd (List.mem_of_mem_drop h) hk.2, fun h => by simp at h⟩
  whole h := nomatch h

/-- A nested element that was gathered is what its map read, put into the collection of the parent. -/
theorem nestedElement_parts {load : Load} {build : Build}
    (hchild : session.catalog.resultMap child = .ok m)
    (h : (nestedElement session load build mapping child parent).run f = (.ok (), g)) :
    ∃ type u out left,
      (mapping.openCollection session.catalog.accessor parent).run f = (.ok type, u) ∧
      (m.read session load build).run u = (.ok out, left) ∧
      (mapping.append session.catalog.accessor parent type out).run left = (.ok (), g) := by
  rw [nestedElement_eq] at h
  obtain ⟨m', s, hmap, hbehind⟩ := run_bind_eq_ok.1 h
  obtain ⟨hfound, rfl⟩ := run_ofExcept_eq_ok.1 hmap
  cases hchild.symm.trans hfound
  obtain ⟨type, u, hopen, hread⟩ := run_bind_eq_ok.1 hbehind
  obtain ⟨out, left, hread, happend⟩ := run_bind_eq_ok.1 hread
  exact ⟨type, u, out, left, hopen, hread, happend⟩

/-- A map that reads a row in a request reads it as a select does, under other names. -/
theorem read_selected {depth bound : Nat} {out : Option Value} {left : Frame}
    (hmaps : Table.Indexed ResultMap.id session.catalog.resultMaps)
    (hstatements : Table.Indexed Statement.id session.catalog.statements)
    (hregistered : session.catalog.resultMap m.id = .ok m)
    (hstatement : session.catalog.statement id = .ok statement)
    (hown : session.catalog.statementResultMap statement = .ok (some m)) (hm : m.isAuto = false)
    (hdepth : depth ≤ nestingBound) (hbound : bound ≤ nestingBound)
    (hrow : u.request.row = (.executing, some (columns, some values)))
    (hstays : m.StaysOn session.catalog u.request.row)
    (hremap : ∀ n, session.catalog.NestedIn m n → Table.get? n.id u.request.mappings = none)
    (hfree : ∀ n key, session.catalog.NestedIn m n →
      n.KeyOnRow session u.world.database.registrations u.request.row key →
      u.request.identity.get? n.id key = none ∧ (n.id, key) ∉ u.request.assembling)
    (hcopies : φ.Copies w.store u.world.store)
    (hregistrations : w.database.registrations = u.world.database.registrations)
    (hderived : ∀ n home, session.catalog.ReachesMap id n → n.mappings = .auto home →
      Table.get? (home, n.id) u.world.derived = Table.get? (home, n.id) w.derived)
    (hreplies : ∀ r ∈ u.world.database.registrations, ∀ v ∈ r.values, v.rename φ = v)
    (hvalues : ∀ v ∈ values, v.rename φ = v)
    (hloader : ∀ v, session.catalog.loader = .fixed v → v.rename φ = v)
    (hread : (m.read session (session.load depth) (Call.builds session (session.load depth) bound)).run
      u = (.ok out, left)) :
    let selected := (session.queryAnswered session.loader (·.onlyRow columns values) id parameter none
      {} .any w).1
    selected.result = .ok () →
    selected.emitted.map (fun e => e.content.rename φ.object φ.lazy) =
      out.toList.map left.world.store.content := by
  intro selected hselected
  obtain ⟨s, out', t, hs, hread', hemitted⟩ :=
    queryAnswered_read hstatement hown hm (hrow ▸ hstays) hselected
  have hclosed : (u.reading session id m).Closed φ session :=
    reading_closed hmaps hstatements (.own (.query hstatement) hown) hloader hreplies
  have hframes : φ.Frames (u.reading session id m) s u :=
    reading_frames hs hrow hremap hcopies hregistrations hderived hvalues
  have hassembles : (φ.onRequest (u.reading session id m) session).Assembles session session.loader
      session.loader := by
    refine Renaming.assembles hclosed (Renaming.reads_load hclosed nestingBound ?_).scans
    intro f g h n values hn hp hrun key hkey
    exact hfree n key hn ⟨f, h, values, hp.stays _ rfl, hp.registrations, hrun, hkey⟩
  have hself : session.catalog.NestedIn m m := ⟨hregistered, .refl⟩
  obtain ⟨b, left', hdeep, hpaired, -, hout⟩ := (hassembles.read (.inl rfl) hself hframes).ok hread'
  cases (ResultMap.read_deeper hdepth hbound hread).symm.trans hdeep
  rw [hemitted]
  cases hout with
  | none => rfl
  | @some v w hv =>
    obtain rfl : w = v.rename φ := hv
    simp only [Option.map_some, Option.toList_some, List.map_cons, List.map_nil]
    rw [hpaired.copies.content]

/-- A map makes the same of a row whether it is nested in another map or a select has it, under other
names: what it puts into the collection of its parent shows the same as what the select gives, and it
puts nothing there exactly when the select gives nothing. The discriminators of the map stay with it on
the row, and the request knows no keys that the maps nested in it get from the row. -/
theorem nestedElement_selected {depth bound : Nat}
    (hmaps : Table.Indexed ResultMap.id session.catalog.resultMaps)
    (hstatements : Table.Indexed Statement.id session.catalog.statements)
    (hchild : session.catalog.resultMap child = .ok m)
    (hstatement : session.catalog.statement id = .ok statement)
    (hown : session.catalog.statementResultMap statement = .ok (some m)) (hm : m.isAuto = false)
    (hdepth : depth ≤ nestingBound) (hbound : bound ≤ nestingBound)
    (hrow : f.request.row = (.executing, some (columns, some values)))
    (hstays : m.StaysOn session.catalog f.request.row)
    (hremap : ∀ n, session.catalog.NestedIn m n → Table.get? n.id f.request.mappings = none)
    (hfree : ∀ n key, session.catalog.NestedIn m n →
      n.KeyOnRow session f.world.database.registrations f.request.row key →
      f.request.identity.get? n.id key = none ∧ (n.id, key) ∉ f.request.assembling)
    (hopen : (mapping.openCollection session.catalog.accessor parent).run f = (.ok type, u))
    (hcopies : φ.Copies w.store u.world.store)
    (hregistrations : w.database.registrations = f.world.database.registrations)
    (hderived : ∀ n home, session.catalog.ReachesMap id n → n.mappings = .auto home →
      Table.get? (home, n.id) f.world.derived = Table.get? (home, n.id) w.derived)
    (hreplies : ∀ r ∈ f.world.database.registrations, ∀ v ∈ r.values, v.rename φ = v)
    (hvalues : ∀ v ∈ values, v.rename φ = v)
    (hloader : ∀ v, session.catalog.loader = .fixed v → v.rename φ = v)
    (hnested : (nestedElement session (session.load depth)
      (Call.builds session (session.load depth) bound) mapping child parent).run f = (.ok (), g)) :
    let selected := (session.queryAnswered session.loader (·.onlyRow columns values) id parameter none
      {} .any w).1
    selected.result = .ok () →
    ∃ out left, (m.read session (session.load depth)
        (Call.builds session (session.load depth) bound)).run u = (.ok out, left) ∧
      (mapping.append session.catalog.accessor parent type out).run left = (.ok (), g) ∧
      selected.emitted.map (fun e => e.content.rename φ.object φ.lazy) =
        out.toList.map left.world.store.content := by
  intro selected hselected
  obtain ⟨type', u', out, left, hopen', hread, happend⟩ := nestedElement_parts hchild hnested
  cases hopen.symm.trans hopen'
  have hregistered : session.catalog.resultMap m.id = .ok m :=
    Catalog.resultMap_id hmaps hchild ▸ hchild
  obtain ⟨store, rfl⟩ := ResultMapping.openCollection_eq_ok hopen
  refine ⟨out, left, hread, happend, ?_⟩
  exact read_selected (u := { f with world := { f.world with store } }) hmaps hstatements hregistered
    hstatement hown hm hdepth hbound hrow hstays hremap hfree hcopies hregistrations hderived hreplies
    hvalues hloader hread hselected

end Session

/-! ## Examples -/

namespace ResultMap

/-- A map that gives maps and groups no rows, with properties named as their columns and lists of the
objects of other maps. -/
def loose (id : String) (columns : List String) (children : List (String × String)) : ResultMap :=
  { keyed id columns children with groupBy := [] }

/-- The map with a discriminator that leads to another map where column `K` holds `x`. -/
def ledTo (m : ResultMap) (sub : String) : ResultMap :=
  let mapping : ResultMapping := { property := "K", coercer := some .object }
  { m with discriminator := some { mapping, subMaps := [("x", sub)] } }

/-- A map without discriminator stays with itself. -/
theorem staysOn {m : ResultMap} (h : m.discriminator = none) (catalog : Catalog)
    (row : Phase × Option (List String × Option (List Value))) : m.StaysOn catalog row := by
  intro f n g _ hrun
  unfold resolveSubMap followDiscriminators at hrun
  rw [h] at hrun
  cases hrun
  rfl

end ResultMap

/-- A row. -/
def oneRow : RowSet where
  columns := ["P", "C", "D", "K"]
  rows := [[.i32 1, .i32 2, .i32 3, .string "x"]]

/-- A session with a statement for each of its maps, which all read one row. -/
def onOneRow (maps : List ResultMap) : Session × World :=
  let statement (m : ResultMap) : Statement :=
    { id := m.id, kind := .select, sql := "q", resultMap := some m.id }
  World.openSession { database := { registrations := [{ sql := "q", reply := .rows oneRow }] } }
    { resultMaps := maps.map fun m => (m.id, m), statements := maps.map fun m => (m.id, statement m) }

/-- The first object of a statement, with the store behind it. -/
def first? (x : Session × World) (id : String) : Option (Value × Store) :=
  match (x.1.queryForList id .null).run x.2 with
  | (.ok (v :: _), w) => some (v, w.store)
  | _ => none

/-- The first element in a list of the first object of a statement. -/
def element? (x : Session × World) (id property : String) : Option (Value × Store) :=
  match first? x id with
  | some (.object r, s) =>
    match (s.data r).slot? property with
    | some (.list (v :: _)) => some (v, s)
    | _ => none
  | _ => none

namespace Session

theorem nestedElement_selected_loose :
    let x := onOneRow [.loose "C" ["C"] [("ds", "D")], .keyed "D" ["D"] []]
    let m : ResultMap := .loose "C" ["C"] [("ds", "D")]
    let mapping : ResultMapping := { property := "cs", type := some .list, route := .nestedMap "C" }
    let f : Frame :=
      { world := { x.2 with store := { objects := #[.map []] } }
        request := { phase := .executing, rows := some oneRow.next.2 } }
    let nested := (nestedElement x.1 (x.1.load 1) (Call.builds x.1 (x.1.load 1) 5) mapping "C"
      (.object ⟨0⟩)).run f
    let selected := (x.1.queryAnswered x.1.loader (·.onlyRow oneRow.columns
      [.i32 1, .i32 2, .i32 3, .string "x"]) "C" .null none {} .any x.2).1
    nested.1 = .ok () ∧ selected.result = .ok () ∧
      ∃ (type : DataType) (u : Frame) (φ : Renaming) (out : Option Value) (left : Frame),
      (m.read x.1 (x.1.load 1) (Call.builds x.1 (x.1.load 1) 5)).run u = (.ok out, left) ∧
      (mapping.append x.1.catalog.accessor (.object ⟨0⟩) type out).run left = (.ok (), nested.2) ∧
      selected.emitted.map (fun e => e.content.rename φ.object φ.lazy) =
        out.toList.map left.world.store.content := by
  intro x m mapping f nested selected
  have hmaps : Table.Indexed ResultMap.id x.1.catalog.resultMaps := by
    refine ⟨by simp [x, onOneRow, World.openSession, World.join, Catalog.atHome, ResultMap.keyed,
      ResultMap.loose], ?_⟩
    simp [x, onOneRow, World.openSession, World.join, Catalog.atHome, ResultMap.atHome,
      ResultMap.keyed, ResultMap.loose]
  have hstatements : Table.Indexed Statement.id x.1.catalog.statements := by
    refine ⟨by simp [x, onOneRow, World.openSession, World.join, Catalog.atHome, ResultMap.keyed,
      ResultMap.loose], ?_⟩
    simp [x, onOneRow, World.openSession, World.join, Catalog.atHome, ResultMap.keyed, ResultMap.loose]
  have hchild : x.1.catalog.resultMap "C" = .ok m := rfl
  have hstatement : x.1.catalog.statement "C" =
    .ok { id := "C", kind := .select, sql := "q", resultMap := some "C" } := rfl
  have hown : x.1.catalog.statementResultMap
    { id := "C", kind := .select, sql := "q", resultMap := some "C" } = .ok (some m) := rfl
  have hrow : f.request.row =
    (.executing, some (oneRow.columns, some [.i32 1, .i32 2, .i32 3, .string "x"])) := rfl
  have hstays : m.StaysOn x.1.catalog f.request.row := ResultMap.staysOn rfl _ _
  have hnew : f.request.identity = {} ∧ f.request.assembling = [] ∧ f.request.mappings = [] :=
    ⟨rfl, rfl, rfl⟩
  have hworld : x.2.store = {} ∧ x.2.database.registrations = f.world.database.registrations ∧
    f.world.derived = x.2.derived := ⟨rfl, rfl, rfl⟩
  have hnested : nested.1 = .ok () := by decide +kernel
  have hselect : selected.result = .ok () := by decide +kernel
  have hnumber : ∀ n, (Value.i32 n).Plain := fun _ => ⟨rfl, rfl⟩
  have htext : (Value.string "x").Plain := ⟨rfl, rfl⟩
  have hvalues : ∀ v ∈ [Value.i32 1, .i32 2, .i32 3, .string "x"], v.Plain := by simp [hnumber, htext]
  have hplain : ∀ r ∈ f.world.database.registrations, ∀ v ∈ r.values, v.Plain := by
    simp [f, x, onOneRow, oneRow, World.openSession, World.join, Catalog.atHome, Registration.values,
      Reply.cells, RowSet.cells, hnumber, htext]
  have hloader : ∀ v, x.1.catalog.loader ≠ .fixed v := by
    rintro v ⟨⟩
  refine ⟨hnested, hselect, ?_⟩
  have hrun : (nestedElement x.1 (x.1.load 1) (Call.builds x.1 (x.1.load 1) 5) mapping "C"
    (.object ⟨0⟩)).run f = (.ok (), nested.2) := Prod.ext hnested rfl
  obtain ⟨type, u, -, -, hopen, -, -⟩ := nestedElement_parts hchild hrun
  have hdefined : selected = (x.1.queryAnswered x.1.loader (·.onlyRow oneRow.columns
    [.i32 1, .i32 2, .i32 3, .string "x"]) "C" .null none {} .any x.2).1 := rfl
  clear_value selected
  clear_value nested
  clear_value f
  clear_value x
  subst hdefined
  refine ⟨type, u, Renaming.behind u.world.store, ?_⟩
  obtain ⟨hidentity, hassembling, hmappings⟩ := hnew
  obtain ⟨hstore, hregistrations, hderived⟩ := hworld
  exact nestedElement_selected hmaps hstatements hchild hstatement hown rfl (by decide) (by decide) hrow
    hstays (fun _ _ => by rw [hmappings]; rfl)
    (fun _ _ _ _ => by rw [hidentity, hassembling]; exact ⟨rfl, List.not_mem_nil⟩) hopen
    (hstore ▸ Renaming.behind_copies _) hregistrations (fun _ _ _ _ => by rw [hderived])
    (fun r hr v hv => (hplain r hr v hv).rename) (fun v hv => (hvalues v hv).rename)
    (fun v hv => absurd hv (hloader v)) hrun hselect

/-- The objects that maps without group-by make when they are nested and when they are selected differ
already in their texts: where a grouped map in them finds an object that the request knows from
elsewhere, where they have a discriminator, and where a map in them has mappings in the request. -/
theorem nested_differs :
    let x := onOneRow [.keyed "P" ["P"] [("ds", "D"), ("cs", "C")], .loose "C" ["C"] [("ds", "D")],
      .keyed "D" ["D"] [], .loose "Q" ["P"] [("es", "E")], (ResultMap.loose "E" ["C"] []).ledTo "D",
      (ResultMap.auto "R" .map true).ledTo "S", .loose "S" ["P"] [("ks", "K")], .loose "K" ["C"] [("rs", "R")]]
    ∀ case ∈ [("P", "cs", "C"), ("Q", "es", "E"), ("R", "ks", "K")],
      let element := (element? x case.1 case.2.1).map fun v => v.2.text v.1
      let selected := (first? x case.2.2).map fun v => v.2.text v.1
      (x.1.catalog.resultMap case.2.2).toOption.map (fun m => (m.isAuto, m.groupBy)) = some (false, []) ∧
        element.isSome = true ∧ selected.isSome = true ∧ element ≠ selected := by
  intro x case hcase
  simp only [List.mem_cons, List.not_mem_nil, or_false] at hcase
  rcases hcase with rfl | rfl | rfl <;> decide +kernel

end Session

end RowMapper
