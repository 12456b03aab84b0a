/-
Writing outputs back. The outputs of a call go into its parameter one after the other, each read by the
coercer of its mapping at the position of the mapping. Behind all of them a map holds at each output what
was read for it, and at every other key what it held before (`ParameterMap.writeOutputs_map`); no other
object is touched (`ParameterMap.writeOutputs_others`), and the positions of inputs are not looked at
(`ParameterMap.writeOutputs_congr`).
-/
import RowMapper.Proofs.Access.Object
import RowMapper.Proofs.Engine.Filled
import RowMapper.Proofs.Statement.Binding

namespace RowMapper

variable {accessor : Accessor} {out out' : OutParams} {r : ObjectRef} {s t : Store}
  {pairs : List (ParameterMapping × Nat)} {pair : ParameterMapping × Nat}

/-! ## One mapping -/

/-- Writes the output of a mapping at its position, if it has one, into a parameter. -/
def ParameterMapping.writeOutput (accessor : Accessor) (parameter : Value) (out : OutParams)
    (pair : ParameterMapping × Nat) : Edit Unit :=
  if pair.1.mode.isOutput then do
    let c ← Edit.ofExcept pair.1.requireCoercer
    let v ← Edit.ofExcept (c.readOutput out pair.2).1
    accessor.set parameter pair.1.property v
  else pure ()

/-- What the coercer of a mapping reads from the output at a position. -/
def ParameterMapping.Reads (m : ParameterMapping) (out : OutParams) (index : Nat) (v : Value) : Prop :=
  ∃ c, m.coercer = some c ∧ (c.readOutput out index).1 = .ok v

namespace ParameterMapping

theorem run_writeOutput_input {parameter : Value} (h : pair.1.mode.isOutput = false) :
    (writeOutput accessor parameter out pair).run s = (.ok (), s) := by
  unfold writeOutput
  rw [h, if_neg Bool.false_ne_true]
  rfl

/-- An output that is written was read at its position. -/
theorem reads_of_writeOutput {parameter : Value} (hout : pair.1.mode.isOutput = true)
    (h : (writeOutput accessor parameter out pair).run s = (.ok (), t)) :
    ∃ v, pair.1.Reads out pair.2 v ∧ (accessor.set parameter pair.1.property v).run s = (.ok (), t) := by
  unfold writeOutput at h
  rw [hout, if_pos rfl] at h
  obtain ⟨c, u, hfound, h⟩ := run_bind_eq_ok.1 h
  obtain ⟨hc, rfl⟩ := Prod.mk.inj hfound
  obtain ⟨v, u, hread, h⟩ := run_bind_eq_ok.1 h
  obtain ⟨hv, rfl⟩ := Prod.mk.inj hread
  exact ⟨v, ⟨c, requireCoercer_eq_ok.1 hc, hv⟩, h⟩

/-- An output is read and then put at its property. -/
theorem writeOutput_eq_ok (hout : pair.1.mode.isOutput = true) (hdotless : '.' ∉ pair.1.property.toList)
    (h : (writeOutput accessor (.object r) out pair).run s = (.ok (), t)) :
    ∃ v, pair.1.Reads out pair.2 v ∧ s.setProperty r pair.1.property v = .ok t := by
  obtain ⟨v, hreads, h⟩ := reads_of_writeOutput hout h
  refine ⟨v, hreads, ?_⟩
  rcases Accessor.run_set_cases (Text.steps_of_no_dot hdotless) accessor r v s with ⟨e, hset⟩ | hset <;>
    rw [hset] at h
  · cases h
  · exact run_change_eq_ok h

/-- However it ends, no object but the parameter has changed. -/
theorem data_writeOutput (hdotless : '.' ∉ pair.1.property.toList) (accessor : Accessor)
    (out : OutParams) {q : ObjectRef} (hq : q ≠ r) (s : Store) :
    ((writeOutput accessor (.object r) out pair).run s).2.data q = s.data q := by
  cases hout : pair.1.mode.isOutput with
  | false => rw [run_writeOutput_input hout]
  | true =>
    unfold writeOutput
    rw [hout, if_pos rfl]
    rcases hc : (Edit.ofExcept pair.1.requireCoercer).run s with ⟨e | c, u⟩ <;>
      obtain ⟨-, rfl⟩ := Prod.mk.inj hc
    · rw [run_bind_error hc]
    rw [run_bind_ok hc]
    rcases hv : (Edit.ofExcept (c.readOutput out pair.2).1).run s with ⟨e | v, u⟩ <;>
      obtain ⟨-, rfl⟩ := Prod.mk.inj hv
    · rw [run_bind_error hv]
    rw [run_bind_ok hv]
    rcases Accessor.run_set_cases (Text.steps_of_no_dot hdotless) accessor r v s with ⟨e, hset⟩ | hset <;>
      rw [hset]
    cases hput : s.setProperty r pair.1.property v with
    | error e => rw [run_change_error hput]
    | ok t =>
      obtain ⟨d, rfl, -⟩ := Store.setProperty_eq_ok hput
      rw [run_change_ok hput]
      exact Store.data_setData_of_ne hq

/-- A position is looked at only for an output. -/
theorem writeOutput_congr
    (h : pair.1.mode.isOutput = true → out'.value pair.2 = out.value pair.2) (parameter : Value) :
    writeOutput accessor parameter out' pair = writeOutput accessor parameter out pair := by
  unfold writeOutput
  split
  · next hout =>
    have hread : ∀ c : Coercer, (c.readOutput out' pair.2).1 = (c.readOutput out pair.2).1 := by
      intro c
      unfold Coercer.readOutput OutParams.read
      rw [h hout]
      cases out.value pair.2 <;> rfl
    simp only [hread]
  · rfl

end ParameterMapping

/-! ## All of them -/

namespace ParameterMap

open ParameterMapping

variable {m : ParameterMap} {entries : List (String × Value)}

/-- A parameter that is no object takes no outputs. -/
theorem writeOutputs_of_isObject {parameter : Value} (h : parameter.isObject = false)
    (m : ParameterMap) (accessor : Accessor) (out : OutParams) :
    m.writeOutputs accessor parameter out = pure () := by
  unfold writeOutputs
  rw [h, if_neg Bool.false_ne_true]

/-- Without outputs nothing is written. -/
theorem run_writeOutputs_inputs (h : ∀ mapping ∈ m.mappings, mapping.mode.isOutput = false)
    (accessor : Accessor) (parameter : Value) (out : OutParams) (s : Store) :
    (m.writeOutputs accessor parameter out).run s = (.ok (), s) := by
  have hloop : ∀ pairs : List (ParameterMapping × Nat), (∀ pair ∈ pairs, pair.1.mode.isOutput = false) →
      (pairs.forM (writeOutput accessor parameter out)).run s = (.ok (), s) := by
    intro pairs hpairs
    induction pairs with
    | nil => rfl
    | cons pair pairs ih =>
      obtain ⟨hinput, hpairs⟩ := List.forall_mem_cons.1 hpairs
      exact (run_bind_ok (run_writeOutput_input hinput)).trans (ih hpairs)
  unfold writeOutputs
  split
  · exact hloop _ fun pair hpair => h _ (List.fst_mem_of_mem_zipIdx hpair)
  · rfl

/-- The positions of the inputs are not looked at: with other values there, or none, the same is done. -/
theorem writeOutputs_congr (h : ∀ i mapping, m.mappings[i]? = some mapping →
      mapping.mode.isOutput = true → out'.value i = out.value i) (accessor : Accessor)
    (parameter : Value) :
    m.writeOutputs accessor parameter out' = m.writeOutputs accessor parameter out := by
  have hpairs : ∀ pair ∈ m.mappings.zipIdx,
      writeOutput accessor parameter out' pair = writeOutput accessor parameter out pair :=
    fun pair hmem => writeOutput_congr (h _ _ (List.mem_zipIdx_iff_getElem?.1 hmem)) parameter
  have hloop : ∀ pairs : List (ParameterMapping × Nat), (∀ pair ∈ pairs, pair ∈ m.mappings.zipIdx) →
      pairs.forM (writeOutput accessor parameter out') = pairs.forM (writeOutput accessor parameter out) := by
    intro pairs hsub
    induction pairs with
    | nil => rfl
    | cons pair pairs ih =>
      obtain ⟨hpair, hsub⟩ := List.forall_mem_cons.1 hsub
      show (do writeOutput accessor parameter out' pair; pairs.forM (writeOutput accessor parameter out')) = _
      rw [hpairs pair hpair, ih hsub]
      rfl
  unfold writeOutputs
  split
  · exact hloop _ fun _ hmem => hmem
  · rfl

/-- However it ends, no object but the parameter has changed. -/
theorem writeOutputs_others (hdotless : ∀ mapping ∈ m.mappings, '.' ∉ mapping.property.toList)
    (accessor : Accessor) (out : OutParams) {q : ObjectRef} (hq : q ≠ r) (s : Store) :
    ((m.writeOutputs accessor (.object r) out).run s).2.data q = s.data q := by
  have hloop : ∀ (pairs : List (ParameterMapping × Nat)) (s : Store),
      (∀ pair ∈ pairs, pair ∈ m.mappings.zipIdx) →
      ((pairs.forM (writeOutput accessor (.object r) out)).run s).2.data q = s.data q := by
    intro pairs
    induction pairs with
    | nil => exact fun _ _ => rfl
    | cons pair pairs ih =>
      intro s hsub
      obtain ⟨hpair, hsub⟩ := List.forall_mem_cons.1 hsub
      have hfirst := data_writeOutput (hdotless _ (List.fst_mem_of_mem_zipIdx hpair)) accessor out hq s
      show ((writeOutput accessor (.object r) out pair >>= fun _ =>
        pairs.forM (writeOutput accessor (.object r) out)).run s).2.data q = _
      rcases hrun : (writeOutput accessor (.object r) out pair).run s with ⟨e | _, t⟩ <;>
        rw [hrun] at hfirst
      · rw [run_bind_error hrun]
        exact hfirst
      · rw [run_bind_ok hrun]
        exact (ih t hsub).trans hfirst
  exact hloop _ s fun _ hmem => hmem

/-- From the entries of a map to those with the outputs of a call in it. -/
structure Wrote (m : ParameterMap) (out : OutParams) (entries entries' : List (String × Value)) : Prop where
  outputs : ∀ i (mapping : ParameterMapping), m.mappings[i]? = some mapping → mapping.mode.isOutput = true →
    ∃ v, mapping.Reads out i v ∧ Table.get? mapping.property entries' = some v
  inputs : ∀ mapping ∈ m.mappings, mapping.mode.isOutput = false →
    Table.get? mapping.property entries' = Table.get? mapping.property entries
  others : ∀ key, (∀ mapping ∈ m.mappings, mapping.property ≠ key) →
    Table.get? key entries' = Table.get? key entries

/-- Outputs with distinct properties that are put into a map one after the other all stay there. -/
theorem run_writeOutput_map : ∀ {pairs : List (ParameterMapping × Nat)} {s : Store}
    {entries : List (String × Value)}, (∀ pair ∈ pairs, '.' ∉ pair.1.property.toList) →
      (pairs.map (·.1.property)).Nodup → r.index < s.objects.size → s.data r = .map entries →
      (pairs.forM (writeOutput accessor (.object r) out)).run s = (.ok (), t) →
      ∃ entries', t.data r = .map entries' ∧
        (∀ pair ∈ pairs, pair.1.mode.isOutput = true →
          ∃ v, pair.1.Reads out pair.2 v ∧ Table.get? pair.1.property entries' = some v) ∧
        ∀ key, (∀ pair ∈ pairs, pair.1.mode.isOutput = true → pair.1.property ≠ key) →
          Table.get? key entries' = Table.get? key entries
  | [], s, entries, _, _, _, hdata, hrun => by
    cases hrun
    exact ⟨entries, hdata, nofun, fun _ _ => rfl⟩
  | pair :: pairs, s, entries, hdotless, hnodup, hr, hdata, hrun => by
    obtain ⟨hdot, hdotless⟩ := List.forall_mem_cons.1 hdotless
    rw [List.map_cons, List.nodup_cons] at hnodup
    obtain ⟨_, u, hfirst, hrest⟩ := run_bind_eq_ok.1 hrun
    cases hout : pair.1.mode.isOutput with
    | false =>
      rw [run_writeOutput_input hout] at hfirst
      cases hfirst
      obtain ⟨entries', hdata', houtputs, hothers⟩ := run_writeOutput_map hdotless hnodup.2 hr hdata hrest
      refine ⟨entries', hdata', List.forall_mem_cons.2 ⟨fun h => (nomatch hout.symm.trans h), houtputs⟩,
        fun key hkey => hothers key (List.forall_mem_cons.1 hkey).2⟩
    | true =>
      obtain ⟨v, hread, hput⟩ := writeOutput_eq_ok hout hdot hfirst
      have hu : s.setData r (.map (Table.put pair.1.property v entries)) = u := by
        simpa [Store.setProperty, hdata] using hput
      subst hu
      obtain ⟨entries', hdata', houtputs, hothers⟩ := run_writeOutput_map hdotless hnodup.2
        (by rwa [Store.size_setData]) (Store.data_setData_self hr) hrest
      refine ⟨entries', hdata', List.forall_mem_cons.2 ⟨fun _ => ⟨v, hread, ?_⟩, houtputs⟩,
        fun key hkey => ?_⟩
      · -- no later output has the property, so the value stays
        rw [hothers _ fun other hmem _ he => hnodup.1 (List.mem_map.2 ⟨other, hmem, he⟩),
          Table.get?_put_self]
      · obtain ⟨hne, hkey⟩ := List.forall_mem_cons.1 hkey
        rw [hothers key hkey, Table.get?_put_of_ne (hne hout).symm]

/-- The outputs of a call in a map: each output property holds what its coercer reads at the position of
its mapping, and the properties of the inputs and the other entries hold what they held. -/
theorem writeOutputs_map (hdistinct : (m.mappings.map (·.property)).Nodup)
    (hdotless : ∀ mapping ∈ m.mappings, '.' ∉ mapping.property.toList) (hr : r.index < s.objects.size)
    (hdata : s.data r = .map entries)
    (hrun : (m.writeOutputs accessor (.object r) out).run s = (.ok (), t)) :
    ∃ entries', t.data r = .map entries' ∧ m.Wrote out entries entries' := by
  have hproperties : m.mappings.zipIdx.map (·.1.property) = m.mappings.map (·.property) := by
    rw [show (fun pair : ParameterMapping × Nat => pair.1.property) =
        (fun mapping => mapping.property) ∘ Prod.fst from rfl, ← List.map_map, List.zipIdx_map_fst]
  obtain ⟨entries', hdata', houtputs, hothers⟩ := run_writeOutput_map
    (fun pair hmem => hdotless _ (List.fst_mem_of_mem_zipIdx hmem)) (hproperties ▸ hdistinct) hr hdata hrun
  refine ⟨entries', hdata', ⟨fun i mapping hi hout => ?_, fun mapping hmem hin => ?_, fun key hkey => ?_⟩⟩
  · exact houtputs (mapping, i) (List.mk_mem_zipIdx_iff_getElem?.2 hi) hout
  · refine hothers _ fun pair hpair hout he => ?_
    have hsame := List.inj_on_of_nodup_map hdistinct (List.fst_mem_of_mem_zipIdx hpair) hmem he
    exact nomatch (hsame ▸ hout).symm.trans hin
  · exact hothers key fun pair hpair _ => hkey _ (List.fst_mem_of_mem_zipIdx hpair)

end ParameterMap

end RowMapper
