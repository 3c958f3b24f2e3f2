import TransitShapes.Proofs.Collection.Outcome
import TransitShapes.Proofs.Network.Invariant

/-! # Offers are taken whole or not at all

An offer to a network has the outcome of an add to its collection. There is no way out after the
collection has the polyline: what is stored has two ends and a length.
-/

namespace TransitShapes

variable {R : Type} [Scalar R]

namespace Network

theorem offer_answer (net : Network R) (line : Polyline R) (policy : DuplicatePolicy) :
    (net.offer line policy).value.2 = net.collection.answer line policy := by
  unfold offer Collection.answer
  cases ha : net.collection.admission line policy with
  | error e => rfl
  | ok a =>
    cases hnew : a.line? with
    | none =>
      cases a <;> cases hnew
      rfl
    | some new =>
      obtain ⟨ends, -, hreceive⟩ :=
        net.receive_of_line? hnew (Collection.storable_of_admission ha hnew).1
      simp only [hreceive]
      cases a <;> cases hnew <;> rfl

theorem offer_of_admitted?_eq_none (net : Network R) {line : Polyline R}
    {policy : DuplicatePolicy} (h : net.collection.admitted? line policy = none) :
    (net.offer line policy).value.1 = net := by
  unfold Collection.admitted? at h
  unfold offer
  cases ha : net.collection.admission line policy with
  | error e => rfl
  | ok a =>
    rw [ha] at h
    cases a with
    | skipped => rfl
    | stored | renamed => cases h

theorem connected_of_admitted? {net : Network R} (hnet : WellFormed net) {line stored : Polyline R}
    {policy : DuplicatePolicy} (h : net.collection.admitted? line policy = some stored) :
    ∃ ends edge, stored.ends? = some ends ∧ stored.length = .ok edge.length ∧
      Connected (net.withLine stored) net.collection.size ends edge
        (net.offer line policy).value.1 := by
  unfold Collection.admitted? at h
  unfold offer
  cases ha : net.collection.admission line policy with
  | error e =>
    rw [ha] at h
    cases h
  | ok a =>
    rw [ha] at h
    have hnew : a.line? = some stored := h
    have htwo := (Collection.storable_of_admission ha hnew).1
    obtain ⟨ends, hends, hreceive⟩ := net.receive_of_line? hnew htwo
    have hagree : VerticesAgree (net.withLine stored) := hnet.agree.congr rfl rfl rfl rfl
    obtain ⟨start, finish, hconnected⟩ :=
      hagree.connect net.collection.size ends stored.pathLength
    refine ⟨ends, ⟨start, finish, stored.pathLength⟩, hends, stored.length_eq htwo, ?_⟩
    simp only [hreceive]
    exact hconnected

/-- **An add to a collection and an offer to a network are taken whole or not at all.** Each has one
outcome of the table. If nothing is stored, every part is as it was. What is stored comes last, in a
network with its edge and its ends as vertices. -/
theorem add_and_offer_atomic :
    (∀ c : Collection R, c.Reachable → ∀ line policy, ∃ next new answer,
      c.Outcome line policy new answer ∧
      (∀ other reply, c.Outcome line policy other reply → other = new ∧ reply = answer) ∧
      (c.add line policy).value = answer.map (fun id => (next, id)) ∧ next.Reachable ∧
      (new = none → next = c) ∧
      ∀ stored, new = some stored → next.lines = c.lines.push stored) ∧
    ∀ net : Network R, net.Reachable → ∀ line policy, ∃ next new answer,
      net.collection.Outcome line policy new answer ∧
      (∀ other reply, net.collection.Outcome line policy other reply →
        other = new ∧ reply = answer) ∧
      (net.offer line policy).value = (next, answer) ∧ next.Reachable ∧
      (new = none → next = net) ∧
      ∀ stored, new = some stored →
        next.collection.lines = net.collection.lines.push stored ∧
        ∃ ends edge, stored.ends? = some ends ∧ stored.length = .ok edge.length ∧
          Connected (net.withLine stored) net.collection.size ends edge next := by
  constructor
  · intro c hc line policy
    have hwf := hc.wellFormed
    refine ⟨c.after line policy, c.admitted? line policy, c.answer line policy,
      hwf.outcome line policy, ?_, ?_, hc.add line policy, ?_, ?_⟩
    · intro other reply hother
      exact hother.unique hwf (hwf.outcome line policy)
    · rw [Collection.after_eq, ← Collection.value_add]
    · intro hnone
      rw [Collection.after_eq, hnone]
      rfl
    · intro stored hstored
      rw [Collection.after_eq, hstored]
      rfl
  · intro net hnet line policy
    have hwf := hnet.collection.wellFormed
    refine ⟨(net.offer line policy).value.1, net.collection.admitted? line policy,
      net.collection.answer line policy, hwf.outcome line policy, ?_, ?_, hnet.offer line policy,
      net.offer_of_admitted?_eq_none, ?_⟩
    · intro other reply hother
      exact hother.unique hwf (hwf.outcome line policy)
    · rw [← net.offer_answer]
    · intro stored hstored
      refine ⟨?_, connected_of_admitted? hnet.wellFormed hstored⟩
      rw [collection_offer, Collection.after_eq, hstored]
      rfl

/-- A network with a polyline, and with another one that came under the same name. -/
def twins : Network Float :=
  let first := (({} : Network Float).offer
    ⟨[⟨1.0, 0.0, 0.0⟩, ⟨0.0, 1.0, 0.0⟩], some "Main"⟩ .smart).value.1
  (first.offer ⟨[⟨0.0, 1.0, 0.0⟩, ⟨0.0, 0.0, 1.0⟩], some "Main"⟩ .smart).value.1

theorem twins_offer_atomic :
    Reachable twins ∧ twins.collection.Reachable ∧ ∃ next stored edge,
      (twins.offer ⟨[⟨1.0, 0.0, 0.0⟩, ⟨0.0, 0.0, 1.0⟩], some "Main"⟩ .smart).value =
        (next, .ok 2) ∧
      stored.name = some "Main-2" ∧
      next.collection.lines = twins.collection.lines.push stored ∧
      next.Reachable ∧ next.edges = twins.edges.push edge ∧
      next.index.entries.toList = next.vertices.toList.zipIdx ∧
      (twins.collection.add ⟨[⟨1.0, 0.0, 0.0⟩], some "Main"⟩ .reject).value =
        .error (.tooFewPoints 2 1) := by
  have hreach : Reachable twins := .offer _ _ (.offer _ _ .empty)
  have hanswer : twins.collection.answer ⟨[⟨1.0, 0.0, 0.0⟩, ⟨0.0, 0.0, 1.0⟩], some "Main"⟩
      .smart = .ok 2 := by decide +kernel
  have hname : (twins.collection.admitted? ⟨[⟨1.0, 0.0, 0.0⟩, ⟨0.0, 0.0, 1.0⟩], some "Main"⟩
      .smart).bind (·.name) = some "Main-2" := by decide +kernel
  have hwf := hreach.collection.wellFormed
  obtain ⟨next, new, answer, -, hunique, hvalue, hnext, -, hstore⟩ :=
    add_and_offer_atomic.2 twins hreach
      ⟨[⟨1.0, 0.0, 0.0⟩, ⟨0.0, 0.0, 1.0⟩], some "Main"⟩ .smart
  obtain ⟨rfl, rfl⟩ := hunique _ _ (hwf.outcome _ _)
  obtain ⟨_, new, answer, -, hunique, hrefused, -⟩ := add_and_offer_atomic.1 twins.collection
    hreach.collection ⟨[⟨1.0, 0.0, 0.0⟩], some "Main"⟩ .reject
  obtain ⟨rfl, rfl⟩ := hunique _ _ (.tooShort (by decide))
  obtain ⟨stored, hstored, hname⟩ := Option.bind_eq_some_iff.mp hname
  obtain ⟨hlines, _, edge, -, -, hconnected⟩ := hstore stored hstored
  have hedges := hconnected.edges
  rw [edges_withLine] at hedges
  rw [hanswer] at hvalue
  exact ⟨hreach, hreach.collection, next, stored, edge, hvalue, hname, hlines, hnext, hedges,
    hconnected.agree.indexed, hrefused⟩

end Network

end TransitShapes
