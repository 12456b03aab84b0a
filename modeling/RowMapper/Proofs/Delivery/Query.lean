/-
The books of a query. The events of its rows follow each other on a request that starts with nothing
remembered and nothing given, so what is built for a key is built once, stays remembered to the end,
and is handed over once, to a parent or to the receiver.
-/
import RowMapper.Proofs.Delivery.Calls
import RowMapper.Proofs.Engine.Rows

namespace RowMapper

open Relation

/-- Reading the values of a row goes along any trail. -/
theorem Trail.later_readValues {τ : Trail} {session : Session} {load : Load}
    (hreads : τ.growth.Scans session load load) {m : ResultMap} {f g : Frame}
    {outcome : Except Stop (Option (ResultMap × List Value))}
    (hrun : (session.readValues load m).run f = (outcome, g)) : τ.growth.later f g :=
  later (hreads.readValues (m := m) (fun _ _ _ _ => trivial) trivial rfl) hrun

namespace Execution

variable {x : Execution} {g : Frame}

theorem Calls.trans {c d : Call} (h : x.Calls c) (hd : ReflTransGen (Call.Makes x.session x.load) c d) :
    x.Calls d := by
  induction hd with
  | refl => exact h
  | tail _ hm ih => exact .nested ih hm

/-- The events of a row: those of its call, and that its object was given. -/
def rowEvents (x : Execution) (c : Call) : List Event :=
  Call.events x.session x.load nestingBound c ++
    match c.run x.session x.load nestingBound with
    | (.ok (some object), _) => [.given object]
    | _ => []

/-- The events of a query. -/
def events (x : Execution) : List Event := x.calls.flatMap x.rowEvents

/-- The books are kept at every row, and what was known when a row was read is known from then on. -/
theorem invariant_books (objects : String → Prop) (hload : x.load = x.session.loader)
    (ht : ∀ id, objects id → x.target = none)
    (hm : ∀ c, x.Calls c → objects c.map.id → c.map.exchange = .map ∨ c.map.exchange = .bean) :
    x.Invariant fun calls f =>
      Books objects { world := x.world } (calls.flatMap x.rowEvents) none f ∧
      ∀ c ∈ calls, ∃ events, Remembers c.frame.request.identity events f.request.identity := by
  have hreads : Trail.still.growth.Scans x.session x.load x.load :=
    hload ▸ Trail.scans_still x.session nestingBound
  have hstill : ∀ {calls : List Call} {f g : Frame}, Trail.still.growth.later f g →
      (Books objects { world := x.world } (calls.flatMap x.rowEvents) none f ∧
        ∀ c ∈ calls, ∃ events, Remembers c.frame.request.identity events f.request.identity) →
      Books objects { world := x.world } (calls.flatMap x.rowEvents) none g ∧
        ∀ c ∈ calls, ∃ events, Remembers c.frame.request.identity events g.request.identity := by
    rintro calls f g hl ⟨hb, hc⟩
    have hbooks := hb.append (.still hl)
    rw [List.append_nil] at hbooks
    rw [hl.2.1]
    exact ⟨hbooks, hc⟩
  refine ⟨⟨fun more hp hnext => hstill ?_ hp, fun hp _ hrow => hstill ?_ hp, ?_⟩, fun hsubmit => ?_,
    fun _ _ hp hopen => hstill ?_ hp, fun _ hp hout => hstill ?_ hp⟩
  · exact Trail.later_of_quiet (IsQuiet.nextRow.quiet hnext)
  · exact Trail.later_readValues hreads hrow
  · intro calls f m left out c hp _ hread htarget hmarks hc hrun
    obtain ⟨hb, hknown⟩ := hstill (Trail.later_readValues hreads hread) hp
    have hcall : Books objects c.frame (x.rowEvents c) none (left.give out) := by
      have hknows : c.frame.KnowsMarks := fun id key hk => by
        unfold Request.isAssembling at hk
        rw [hmarks] at hk
        cases hk
      obtain ⟨hbooks, -⟩ := Call.books hreads nestingBound c (fun ho => htarget.trans (ht _ ho))
        (fun d hd => hm d (hc.trans hd)) hknows hrun
      unfold rowEvents
      rw [hrun]
      cases out with
      | none => rwa [List.append_nil]
      | some object => exact hbooks.deliver rfl (Nat.le_refl _) rfl (by simp [Frame.give, Event.given?])
    refine ⟨?_, fun d hd => ?_⟩
    · rw [List.flatMap_append, List.flatMap_singleton]
      exact hb.append hcall
    · rcases List.mem_append.1 hd with hd | hd
      · obtain ⟨events, he⟩ := hknown d hd
        exact ⟨_, he.append hcall.remembers⟩
      · rw [List.mem_singleton.1 hd]
        exact ⟨_, hcall.remembers⟩
  · have hquiet := (IsQuiet.submit x.session x.statement x.parameter).quiet hsubmit
    exact ⟨.still (Trail.later_of_quiet hquiet), fun c hc => absurd hc List.not_mem_nil⟩
  · exact Trail.later_of_quiet ((IsQuiet.openRows x.session _ _).quiet hopen)
  · exact Trail.later (Trail.writeOutputs x.statement x.parameter _ _) hout

end Execution

end RowMapper
