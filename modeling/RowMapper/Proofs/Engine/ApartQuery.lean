/-
Queries around objects that are apart. The steps between the rows of a query, and the output
parameters behind them, leave the objects that are apart as they are, but for those that the query was
given.
-/
import RowMapper.Proofs.Engine.Apart

namespace RowMapper

variable {session : Session} {load : Load} {f g : Frame} {m : ResultMap} {r : ObjectRef} {n : Nat}

/-- A row is read with a map that has no discriminator as it is. -/
theorem Session.readValues_eq_ok {found : Option (ResultMap × List Value)}
    (hm : m.discriminator = none) (hrun : (session.readValues load m).run f = (.ok found, g)) :
    ∃ values, (m.readRow session load).run f = (.ok values, g) ∧
      found = if g.request.rowDataFound then some (m, values) else none := by
  have hresolve : m.resolveSubMap session.catalog = pure m := by
    unfold ResultMap.resolveSubMap ResultMap.followDiscriminators
    rw [hm]
  unfold Session.readValues at hrun
  rw [hresolve] at hrun
  obtain ⟨_, u, hmap, hrun⟩ := run_bind_eq_ok.1 hrun
  cases hmap
  obtain ⟨values, k, hread, hrun⟩ := run_bind_eq_ok.1 hrun
  obtain ⟨data, k', hdata, hrun⟩ := run_bind_eq_ok.1 hrun
  cases hdata
  cases hrun
  exact ⟨values, hread, rfl⟩

namespace Frame

theorem Closed.congr (hc : f.Closed session) (hfg : f.forget = g.forget) : g.Closed session := by
  have hworld : f.forget.world = g.forget.world := congrArg Frame.world hfg
  exact fun r hr => (hc r (hworld ▸ hr)).congr hfg

/-- Moving to the next row passes everything by. -/
theorem nextRow_passes {more : Bool} (hf : f.request.mappings = [])
    (hrun : Frame.nextRow.run f = (.ok more, g)) : f.Passes session (fun _ => True) g :=
  passes_of_inStep (fun _ _ => trivial) (Correspondence.memory.onRows _ (paired_memory hf))
    (fun _ _ _ hp => Watch.onRows_inStep hp (fun _ _ => RowSet.mem_cells_of_next)
      fun _ _ _ _ _ _ => trivial) hrun

/-- The rows of a response are opened where the store has what they hold. -/
theorem Closed.openRows {rows : RowSet} (hc : f.Closed session) (hm : m.isAuto = false)
    (hrows : ∀ v ∈ rows.cells, f.Has v) (hrun : (session.openRows m rows).run f = (.ok (), g)) :
    g.Closed session := by
  obtain rfl := Session.openRows_eq_ok hm hrun
  intro r hr
  have ha := hc r hr
  refine ⟨ha.store, ha.loader, ha.replies, fun opened hopened hmem => ?_, ha.made⟩
  cases hopened
  exact (hrows _ hmem).ne_unmade r hr rfl

/-- Output parameters are written into a parameter, past all that it and they do not refer to. -/
theorem writeOutputs_passes {statement : Statement} {parameter : Value} {outputs : Option OutParams}
    (hf : f.request.mappings = []) (hparameter : f.Has parameter)
    (hout : ∀ out, outputs = some out → ∀ v ∈ out.values, f.Has v)
    (hrun : (session.writeOutputs statement parameter outputs).run f = (.ok (), g)) :
    f.Passes session (fun r => parameter ≠ .object r ∧
      ∀ out, outputs = some out → ∀ v ∈ out.values, v ≠ .object r) g := by
  have hmemory : Correspondence.memory.InStep Pairing.Any
      (session.writeOutputs statement parameter outputs)
      (session.writeOutputs statement parameter outputs) f f.forget := by
    unfold Session.writeOutputs
    split
    · refine Pairing.InStep.bind (Q := Pairing.Any) (.modify (Correspondence.memory.modify
        (fun r => { r with context := _ }) (fun _ => rfl) (fun _ => rfl) (paired_memory hf)) ⟨rfl, rfl⟩) ?_
      exact fun s t _ _ _ hp _ => (Correspondence.memory.onWorld _ hp).any
    · exact .pure (paired_memory hf) trivial
  refine passes_of_inStep (fun r hr => ⟨hparameter.ne_unmade r hr, fun out ho v hv =>
    (hout out ho v hv).ne_unmade r hr⟩) hmemory (fun r made hfree hp => ?_) hrun
  refine Watch.writeOutputs statement outputs hp ⟨rfl, fun he => ?_⟩ fun out ho v hv =>
    ⟨⟨rfl, fun he => ?_⟩, trivial⟩
  · exact hfree.resolve_left fun hne => hne.1 he
  · exact hfree.resolve_left fun hne => hne.2 out ho v hv he

end Frame

end RowMapper
