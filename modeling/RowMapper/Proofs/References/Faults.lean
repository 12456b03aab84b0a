/-
Which errors tell of a look-up that failed (`Error.dangles`). None of what reads, converts, binds or
writes values looks anything up in a catalog: an error of theirs tells of something else
(`Found`, `Edit.Finds`).
-/
import RowMapper.Proofs.Engine.Keeps
import RowMapper.Engine.Query

namespace RowMapper

variable {α β : Type}

/-! ## Failed look-ups -/

/-- Whether a fault is that of a result map or statement that is not in the catalog. -/
def Fault.isMissing : Fault → Bool
  | .configuration (.missing _ _) => true
  | _ => false

/-- Whether an error comes from a reference to a result map or statement that is not there. -/
def Error.dangles (e : Error) : Bool := e.chain.any Fault.isMissing

/-- What is put in front of an error does not hide it, and a fault of another kind adds nothing. -/
theorem Error.dangles_context (e : Error) {c : Fault} (hc : c.isMissing = false) :
    (e.context ⟨c, []⟩).dangles = e.dangles := by
  show (c.isMissing || e.chain.any Fault.isMissing) = _
  rw [hc]
  rfl

theorem Error.dangles_remark (e : Error) (note : Note) : (e.remark note).dangles = e.dangles :=
  e.dangles_context rfl

theorem Frame.dangles_explain (frame : Frame) (e : Error) : (frame.explain e).dangles = e.dangles := by
  unfold Frame.explain
  split
  · rfl
  · exact e.dangles_context rfl

/-- A statement that is not found gives an error that dangles. -/
theorem Catalog.dangles_of_statement {c : Catalog} {id : String} {e : Error}
    (h : c.statement id = .error e) : e.dangles = true := by
  unfold Catalog.statement at h
  split at h <;> cases h
  rfl

/-! ## Outcomes -/

/-- An outcome that is no failed look-up. -/
abbrev Found (outcome : Except Error α) : Prop := Ends (fun e => e.dangles = false) Always outcome

namespace Found

theorem bind {x : Except Error α} {f : α → Except Error β} (hx : Found x) (hf : ∀ a, Found (f a)) :
    Found (x >>= f) := by
  cases x with
  | error e => exact hx
  | ok a => exact hf a

theorem map {x : Except Error α} {f : α → β} (hx : Found x) : Found (x.map f) := by
  cases x with
  | error e => exact hx
  | ok a => trivial

/-- An error that is replaced is replaced by one of another kind. -/
theorem mapError {ε : Type} {x : Except ε α} {f : ε → Error} (hf : ∀ e, (f e).dangles = false) :
    Found (x.mapError f) := by
  cases x with
  | error e => exact hf e
  | ok a => trivial

theorem mapM {xs : List α} {f : α → Except Error β} (hf : ∀ a, Found (f a)) : Found (xs.mapM f) := by
  induction xs with
  | nil => trivial
  | cons x xs ih =>
    rw [List.mapM_cons]
    exact (hf x).bind fun _ => ih.bind fun _ => trivial

end Found

/-! ## Values -/

theorem Value.found_readBool (v : Value) : Found v.readBool := by
  unfold readBool
  split <;> first | trivial | skip
  split <;> trivial

theorem Value.found_readI32 (v : Value) : Found v.readI32 := by
  unfold readI32
  split <;> first | exact .mapError fun _ => rfl | trivial | skip
  split <;> trivial

theorem Value.found_readI64 (v : Value) : Found v.readI64 := by
  unfold readI64
  split <;> first | exact .mapError fun _ => rfl | trivial

theorem Value.found_readF64 (v : Value) : Found v.readF64 := by
  unfold readF64
  split <;> first | exact .mapError fun _ => rfl | trivial

theorem Value.found_readString (v : Value) : Found v.readString := by
  unfold readString
  split <;> first | trivial | skip
  · split <;> trivial
  · split <;> trivial

theorem Value.found_readBytes (v : Value) : Found v.readBytes := by
  unfold readBytes
  split <;> trivial

theorem Value.found_readTimestamp (v : Value) : Found v.readTimestamp := by
  unfold readTimestamp
  split <;> first | trivial | skip
  · split <;> trivial
  · split <;> trivial

theorem DataType.found_cast (type : DataType) (v : Value) : Found (type.cast v) := by
  unfold cast
  split <;> first | trivial | skip
  · split <;> trivial
  · split <;> trivial
  · split <;> trivial

namespace Coercer

theorem found_readDefault (c : Coercer) (v : Value) : Found (c.readDefault v) := by
  cases c with
  | bool => exact v.found_readBool.map
  | i32 => exact v.found_readI32.map
  | i64 => exact v.found_readI64.map
  | f64 => exact v.found_readF64.map
  | string => exact v.found_readString.map
  | bytes => exact v.found_readBytes.map
  | timestamp => exact v.found_readTimestamp.map
  | object => trivial

theorem found_ofStored (c : Coercer) (v : Value) : Found (c.ofStored v) := by
  unfold ofStored
  split
  · trivial
  · exact c.found_readDefault v

theorem found_valueOf (c : Coercer) (text : String) : Found (c.valueOf text) := by
  cases c with
  | bool => exact (Value.found_readBool _).map
  | i32 | i64 | f64 | timestamp => exact .mapError fun _ => rfl
  | string | bytes | object => trivial

theorem found_bind (c : Coercer) (params : Params) (index : Nat) (v : Value)
    (sqlType : Option String) : Found (c.bind params index v sqlType) := by
  unfold Coercer.bind
  split
  · trivial
  · exact (DataType.found_cast _ v).map

theorem found_readColumn (c : Coercer) (rows : RowSet) (column : Column) :
    Found (c.readColumn rows column).1 := by
  have hindex : Found (rows.columnIndex column) := by
    unfold RowSet.columnIndex
    split <;> split <;> trivial
  have hvalue : Found (rows.value column) := by
    unfold RowSet.value
    refine hindex.bind fun position => ?_
    split <;> trivial
  unfold readColumn RowSet.read
  cases h : rows.value column with
  | error e => rw [h] at hvalue; exact hvalue
  | ok v => exact c.found_ofStored v

theorem found_readOutput (c : Coercer) (out : OutParams) (index : Nat) :
    Found (c.readOutput out index).1 := by
  have hvalue : Found (out.value index) := by
    unfold OutParams.value
    split <;> trivial
  unfold readOutput OutParams.read
  cases h : out.value index with
  | error e => rw [h] at hvalue; exact hvalue
  | ok v => exact c.found_ofStored v

end Coercer

/-! ## Objects -/

namespace Store

theorem found_objectAt (v : Value) (path : String) : Found (objectAt v path) := by
  unfold objectAt
  split <;> trivial

theorem found_fieldIndex (type : BeanType) (property : String) : Found (fieldIndex type property) := by
  unfold fieldIndex
  split <;> trivial

theorem found_getProperty (s : Store) (ref : ObjectRef) (property : String) :
    Found (s.getProperty ref property) := by
  unfold getProperty
  split
  · trivial
  · exact (found_fieldIndex _ _).bind fun _ => trivial
  · trivial

theorem found_setterType (s : Store) (ref : ObjectRef) (property : String) :
    Found (s.setterType ref property) := by
  unfold setterType
  split
  · split <;> trivial
  · trivial

theorem found_slotOf (s : Store) (ref : ObjectRef) (property : String) :
    Found (s.slotOf ref property) := by
  unfold slotOf
  split
  · trivial
  · exact (found_fieldIndex _ _).map
  · trivial

theorem found_walk (s : Store) : ∀ (steps : List String) (ref : ObjectRef), Found (s.walk ref steps)
  | [], _ => trivial
  | [_], _ => trivial
  | step :: next :: steps, ref => by
    unfold walk
    split
    · trivial
    · refine (s.found_getProperty ref step).bind fun v => ?_
      split
      · exact s.found_walk (next :: steps) _
      · trivial
      · rfl

theorem found_push (s : Store) (collection item : Value) : Found (s.push collection item) := by
  unfold push
  split <;> trivial

theorem found_grow (s : Store) (collection item : Value) : Found (s.grow collection item).2 := by
  have hpush := s.found_push collection item
  unfold grow
  split
  · trivial
  · rename_i e he
    rw [he] at hpush
    exact hpush

end Store

namespace Accessor

variable (accessor : Accessor) (s : Store) (v : Value) (path : String)

theorem found_root : Found (accessor.root s v path) := by
  unfold root
  split
  · exact Store.found_objectAt v ""
  · refine (Store.found_objectAt v path).bind fun ref => ?_
    split <;> trivial

theorem found_owner? : Found (accessor.owner? s v path) :=
  (accessor.found_root s v path).bind fun root => s.found_walk _ root

theorem found_get : Found (accessor.get s v path) := by
  unfold get
  refine (accessor.found_owner? s v path).bind fun owner => ?_
  split
  · exact s.found_getProperty _ _
  · trivial

theorem found_setterType : Found (accessor.setterType s v path) := by
  unfold setterType
  refine (accessor.found_owner? s v path).bind fun owner => ?_
  split
  · exact s.found_setterType _ _
  · trivial

end Accessor

/-! ## Parameters -/

theorem Exchange.found_getData (exchange : Exchange) (accessor : Accessor) (s : Store)
    (properties : List String) (parameter : Value) :
    Found (exchange.getData accessor s properties parameter) := by
  cases exchange with
  | map | bean | dom => exact .mapM fun property => accessor.found_get s parameter property
  | record | scalar => trivial

theorem ParameterMapping.found_requireCoercer (m : ParameterMapping) : Found m.requireCoercer := by
  unfold requireCoercer
  split <;> trivial

theorem ParameterMapping.found_bind (m : ParameterMapping) (s : Store) (params : Params)
    (index : Nat) (v : Value) : Found (m.bind s params index v) := by
  unfold ParameterMapping.bind
  split
  · trivial
  · refine m.found_requireCoercer.bind fun c => ?_
    dsimp only
    split
    · exact (c.found_valueOf _).map.bind fun v => c.found_bind _ _ _ _
    · exact c.found_bind _ _ _ _

theorem ParameterMap.found_bindFrom (s : Store) : ∀ (pairs : List (ParameterMapping × Value))
    (index : Nat) (params : Params), Found (bindFrom s index pairs params)
  | [], _, _ => trivial
  | (mapping, v) :: rest, index, params =>
    (mapping.found_bind s params index v).bind fun params => found_bindFrom s rest (index + 1) params

theorem Statement.found_bind (statement : Statement) (accessor : Accessor) (s : Store)
    (parameter : Value) : Found (statement.bind accessor s parameter) := by
  unfold Statement.bind
  split
  · rename_i m _
    exact (Exchange.found_getData _ _ _ _ _).bind fun values => ParameterMap.found_bindFrom s _ 0 []
  · trivial

theorem Statement.found_requireQuery (statement : Statement) : Found statement.requireQuery := by
  unfold requireQuery
  split <;> trivial

/-! ## Types -/

theorem DataType.found_newCollection (type : Option DataType) (property : String) :
    Found (DataType.newCollection type property) := by
  unfold newCollection
  split
  · trivial
  · trivial
  · split <;> trivial

theorem DataType.found_atSteps (steps : List String) (type : DataType) : Found (type.atSteps steps) := by
  induction steps generalizing type with
  | nil => cases type <;> trivial
  | cons step steps ih =>
    cases type with
    | bean name properties =>
      unfold atSteps
      split
      · exact ih _
      · trivial
    | _ => exact ih .object

theorem ResultMap.found_selectTarget (m : ResultMap) (mapping : ResultMapping) :
    Found (m.selectTarget mapping) := by
  unfold selectTarget
  split
  · rfl
  · trivial
  · trivial
  · trivial
  · split
    · exact DataType.found_atSteps _ _
    · trivial

/-! ## Requests and databases -/

namespace Request

theorem found_start (r : Request) (rows : RowSet) : Found (r.start rows) := by
  unfold start
  split <;> trivial

theorem found_rowSetToRead (r : Request) : Found r.rowSetToRead := by
  unfold rowSetToRead
  split <;> trivial

theorem found_derive (r : Request) (m : ResultMap) (catalog : Catalog) : Found (m.derive catalog r) := by
  have hrows : Found r.rowSet := by
    unfold rowSet
    split <;> trivial
  exact hrows.bind fun _ => trivial

end Request

theorem Script.found_execute (d : Script) (s : Store) (op : Operation) : Found (d.execute s op).1 := by
  unfold Script.execute
  dsimp only
  split
  · unfold respond
    split
    · rfl
    · trivial
    · trivial
    · split <;> trivial
  · rfl

end RowMapper
