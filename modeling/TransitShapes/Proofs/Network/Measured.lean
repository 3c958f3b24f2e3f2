import TransitShapes.Proofs.Network.Cost

/-! # Routes where a length is not a number

What is reached over a polyline without a length has a cost that compares with nothing, and keeps
it. So such a polyline can stand in for a better way to a vertex, and when it does depends on where
its cost stands in the frontier. It does no harm on the way to vertices that cannot be reached
without one.
-/

namespace TransitShapes

open Scalar

variable {R : Type} [Scalar R]

namespace Network

variable {net : Network R} {start target : Nat}

/-! ## Chains of polylines that have a length -/

/-- The length of every polyline of some rides is a number. -/
def Measured (net : Network R) (rides : List (Ride R)) : Prop :=
  ∀ ride ∈ rides, ¬ IsNaN (net.lengthOf ride.id)

theorem Chain.measured_iff [LawfulSum R] (h : WellFormed net) {a b : Nat} {rides : List (Ride R)}
    (hchain : net.Chain a rides b) : net.Measured rides ↔ ¬ IsNaN (net.chainCost rides) := by
  unfold Measured
  induction hchain with
  | nil => exact iff_of_true nofun not_isNaN_zero
  | @snoc rides ride b c hchain hride ih =>
    obtain ⟨edge, hedge, -⟩ := h.across_of_joins hride
    rw [chainCost_append_singleton, LawfulSum.isNaN_add (hchain.unsigned_chainCost h)
      (by rw [lengthOf_eq hedge]; exact h.unsignedEdges _ _ hedge), not_or, ← ih]
    simp only [List.mem_append, List.mem_singleton, or_imp, forall_and, forall_eq]

theorem WellFormed.measuredTo_iff [LawfulSum R] (h : WellFormed net) {v : Nat} :
    net.MeasuredTo start v ↔ ∃ rides, net.Chain start rides v ∧ net.Measured rides := by
  constructor
  · rintro ⟨hops, cost, hwalk, hcost⟩
    obtain ⟨rides, hchain, rfl, -⟩ := hwalk.exists_chain h
    exact ⟨rides, hchain, (hchain.measured_iff h).mpr hcost⟩
  · rintro ⟨rides, hchain, hmeasured⟩
    obtain ⟨hops, hwalk⟩ := hchain.exists_walk h
    exact ⟨hops, _, hwalk, (hchain.measured_iff h).mp hmeasured⟩

/-- Rides that come to no vertex twice, with the vertices that they leave, in order. -/
inductive Path (net : Network R) (a : Nat) : List (Ride R) → List Nat → Nat → Prop where
  | nil : Path net a [] [] a
  | snoc {rides : List (Ride R)} {ride : Ride R} {passed : List Nat} {b c : Nat} :
      Path net a rides passed b → ride.Joins net b c → c ∉ passed → c ≠ b →
      Path net a (rides ++ [ride]) (passed ++ [b]) c

theorem Path.chain {a b : Nat} {rides : List (Ride R)} {passed : List Nat}
    (h : net.Path a rides passed b) : net.Chain a rides b := by
  induction h with
  | nil => exact .nil
  | snoc _ hride _ _ ih => exact ih.snoc hride

/-- A vertex that chains of polylines with a length lead to is also the end of a path with a
polyline that has none. -/
def Obscured (net : Network R) (start : Nat) : Prop :=
  ∃ v, (∃ rides, net.Chain start rides v ∧ net.Measured rides) ∧
    ∃ rides passed, net.Path start rides passed v ∧ ¬ net.Measured rides

/-! ## What a search keeps -/

namespace Search

variable {s : Search R}

theorem Traced.exists_path (hnet : WellFormed net) {hops : List Hop} {v : Nat} {cost : R}
    (h : Traced net s start hops v cost) :
    ∃ rides, net.Path start rides (hops.map Hop.origin) v ∧ net.chainCost rides = cost := by
  induction h with
  | start => exact ⟨[], .nil, rfl⟩
  | @hop hops u id cost edge _ _ hid hedge _ hfresh hne ih =>
    obtain ⟨rides, hpath, rfl⟩ := ih
    obtain ⟨line, -, hjoins⟩ := hnet.joins_of_hop hid hedge
    refine ⟨rides ++ [⟨id, line⟩], ?_, ?_⟩
    · rw [List.map_append, List.map_singleton]
      exact hpath.snoc hjoins hfresh hne
    · rw [chainCost_append_singleton, lengthOf_eq hedge]

/-- Last hops lead back along a path. So a cost that is no number obscures its vertex, if the vertex
can be reached at another one. -/
theorem Sound.clear_of_not_obscured [LawfulSum R] (h : Sound net start s) (hnet : WellFormed net)
    (hsight : ¬ net.Obscured start) : Clear net start s := by
  intro v known hknown hto hnan
  obtain ⟨hops, htraced⟩ := h.traced hknown
  obtain ⟨rides, hpath, rfl⟩ := htraced.exists_path hnet
  refine hsight ⟨v, hnet.measuredTo_iff.mp hto, rides, _, hpath, fun hmeasured => ?_⟩
  exact (hpath.chain.measured_iff hnet).mp hmeasured hnan

end Search

/-! ## The theorem -/

/-- **A chain of polylines that have a length is not passed over without a cause.** Wherever there
is one a chain is found. It is made of such polylines and costs no more than any other such chain,
unless a polyline without a length obscures the way. -/
theorem Reachable.shortestPath_measured [LawfulSum R] (h : Reachable net) {p q : Vec3 R}
    {start finish : Nat} (hp : net.vertexId? p = some start) (hq : net.vertexId? q = some finish)
    (hne : start ≠ finish) {rides : List (Ride R)} (hchain : net.Chain start rides finish)
    (hmeasured : net.Measured rides) :
    ∃ found, net.Chain start found finish ∧
      (net.shortestPath p q).value = some (Polyline.join (found.map Ride.line) (some 0.0)) ∧
      (¬ net.Obscured start → net.Measured found ∧
        ∀ others, net.Chain start others finish → net.Measured others →
          net.chainCost found ≤ net.chainCost others) := by
  have hnet := h.wellFormed
  rw [shortestPath_eq_route hp hq]
  by_cases hsight : net.Obscured start
  · obtain ⟨path, hroute⟩ : ∃ path, (net.route start finish).value = some path :=
      Option.ne_none_iff_exists'.mp fun hnone => hnet.route_eq_none_iff.mp hnone ⟨rides, hchain⟩
    obtain ⟨found, hfound, rfl⟩ := hnet.exists_chain_of_route hne hroute
    exact ⟨found, hfound, hroute, fun hclear => absurd hsight hclear⟩
  · have hends := Search.ends_search hnet.unsignedEdges start finish
    unfold route
    rw [if_neg hne]
    generalize net.search start finish = outcome at hends
    cases hends with
    | unreachable hinv hfrontier =>
      obtain ⟨hops, hwalk⟩ := hchain.exists_walk hnet
      exact absurd hwalk (hinv.unreachable hfrontier hops _)
    | reached hinv hfrontier hfinish =>
      obtain ⟨found, hfound, hvalue, hcost, hleast⟩ := hnet.exists_chain_of_reached hinv
        (hinv.clear_of_not_obscured hnet hsight) hfrontier hfinish
        (hnet.measuredTo_iff.mpr ⟨rides, hchain, hmeasured⟩)
      exact ⟨found, hfound, hvalue, fun _ => ⟨(hfound.measured_iff hnet).mpr hcost,
        fun others hothers hnumber =>
          hleast others hothers ((hothers.measured_iff hnet).mp hnumber)⟩⟩

/-! ## Sidings and fog -/

/-- Vertices that polylines with a length do not leave, and that the others leave over one vertex
only. -/
structure Gated (net : Network R) (inside : Nat → Prop) (gate : Nat) : Prop where
  closed : ∀ edge ∈ net.edges, ¬ IsNaN edge.length → (inside edge.start ↔ inside edge.finish)
  leaves : ∀ edge ∈ net.edges, IsNaN edge.length → edge.start = edge.finish ∨
    edge.start = gate ∧ ¬ inside edge.finish ∨ edge.finish = gate ∧ ¬ inside edge.start

namespace Gated

variable {inside : Nat → Prop} {gate : Nat}

theorem inside_iff_of_joins (h : net.Gated inside gate) (hnet : WellFormed net) {ride : Ride R}
    {a b : Nat} (hride : ride.Joins net a b) (hlength : ¬ IsNaN (net.lengthOf ride.id)) :
    inside a ↔ inside b := by
  obtain ⟨edge, hedge, hends⟩ := hnet.edge_of_joins hride
  rw [lengthOf_eq hedge] at hlength
  have hclosed := h.closed edge (Array.mem_of_getElem? hedge) hlength
  rcases hends with ⟨rfl, rfl⟩ | ⟨rfl, rfl⟩
  · exact hclosed
  · exact hclosed.symm

theorem leaves_of_joins (h : net.Gated inside gate) (hnet : WellFormed net) {ride : Ride R}
    {a b : Nat} (hride : ride.Joins net a b) (hlength : IsNaN (net.lengthOf ride.id))
    (hne : b ≠ a) : a = gate ∧ ¬ inside b ∨ b = gate ∧ ¬ inside a := by
  obtain ⟨edge, hedge, hends⟩ := hnet.edge_of_joins hride
  rw [lengthOf_eq hedge] at hlength
  have hleaves := h.leaves edge (Array.mem_of_getElem? hedge) hlength
  rcases hends with ⟨rfl, rfl⟩ | ⟨rfl, rfl⟩
  · exact hleaves.resolve_left hne.symm
  · exact (hleaves.resolve_left hne).symm

theorem inside_of_chain (h : net.Gated inside gate) (hnet : WellFormed net) {a b : Nat}
    {rides : List (Ride R)} (hchain : net.Chain a rides b) (hmeasured : net.Measured rides)
    (ha : inside a) : inside b := by
  induction hchain with
  | nil => exact ha
  | @snoc rides ride b c _ hride ih =>
    obtain ⟨hrides, hlast⟩ := List.forall_mem_append.mp hmeasured
    have hlength := hlast ride (List.mem_singleton_self ride)
    exact (h.inside_iff_of_joins hnet hride hlength).mp (ih hrides)

/-- A path that leaves passes the gate, and so it does not come back. -/
theorem measured_or_passed (h : net.Gated inside gate) (hnet : WellFormed net)
    (hstart : inside start) {b : Nat} {rides : List (Ride R)} {passed : List Nat}
    (hpath : net.Path start rides passed b) :
    inside b ∧ net.Measured rides ∨ ¬ inside b ∧ gate ∈ passed := by
  induction hpath with
  | nil => exact Or.inl ⟨hstart, nofun⟩
  | @snoc rides ride passed b c _ hride hfresh hne ih =>
    rw [List.mem_append]
    by_cases hlength : IsNaN (net.lengthOf ride.id)
    · rcases h.leaves_of_joins hnet hride hlength hne with ⟨rfl, hout⟩ | ⟨rfl, hout⟩
      · exact Or.inr ⟨hout, Or.inr (List.mem_singleton_self _)⟩
      · obtain ⟨hin, -⟩ | ⟨-, hpassed⟩ := ih
        · exact absurd hin hout
        · exact absurd hpassed hfresh
    · rw [← h.inside_iff_of_joins hnet hride hlength]
      refine ih.imp (fun ⟨hin, hmeasured⟩ => ⟨hin, ?_⟩)
        fun ⟨hout, hpassed⟩ => ⟨hout, Or.inl hpassed⟩
      exact List.forall_mem_append.mpr ⟨hmeasured, List.forall_mem_singleton.mpr hlength⟩

theorem not_obscured (h : net.Gated inside gate) (hnet : WellFormed net) (hstart : inside start) :
    ¬ net.Obscured start := by
  rintro ⟨v, ⟨rides, hchain, hmeasured⟩, others, passed, hpath, hnot⟩
  rcases h.measured_or_passed hnet hstart hpath with ⟨-, hothers⟩ | ⟨hout, -⟩
  · exact hnot hothers
  · exact hout (h.inside_of_chain hnet hchain hmeasured hstart)

end Gated

/-- Some polylines, all without a name, offered one after the other. -/
def unnamed (shapes : List (List (Vec3 Float))) : Network Float :=
  shapes.foldl (fun net points => (net.offer ⟨points, none⟩ .smart).value.1) {}

theorem reachable_unnamed (shapes : List (List (Vec3 Float))) : Reachable (unnamed shapes) := by
  unfold unnamed
  generalize hnet : ({} : Network Float) = net
  have hreach : Reachable net := hnet ▸ .empty
  clear hnet
  induction shapes generalizing net with
  | nil => exact hreach
  | cons points rest ih => exact ih _ (hreach.offer _ _)

def nowhere : Vec3 Float := ⟨Elementary.nan, 0.0, 0.0⟩

def plainPoints : List (Vec3 Float) := [⟨1.0, 0.0, 0.0⟩, ⟨0.0, 1.0, 0.0⟩]

/-- A polyline with a length, a loop without one at its start, and another one without a length
that goes on from its end. -/
def sidings : Network Float :=
  unnamed [[⟨1.0, 0.0, 0.0⟩, nowhere, ⟨1.0, 0.0, 0.0⟩], plainPoints,
    [⟨0.0, 1.0, 0.0⟩, nowhere, ⟨0.0, 0.0, 1.0⟩]]

theorem chain_of_plain {net : Network Float} (id : Nat)
    (hget : net.collection.get? id = some ⟨plainPoints, none⟩) {a b : Nat}
    (ha : net.vertexId? ⟨1.0, 0.0, 0.0⟩ = some a) (hb : net.vertexId? ⟨0.0, 1.0, 0.0⟩ = some b) :
    net.Chain a [⟨id, ⟨plainPoints, none⟩⟩] b :=
  Chain.nil.snoc ⟨⟨_, hget, Or.inl rfl⟩, _, _, rfl, ha, hb⟩

theorem sidings_not_obscured : ¬ sidings.Obscured 0 := by
  have hgated : sidings.Gated (· < 2) 1 := ⟨by decide +kernel, by decide +kernel⟩
  exact hgated.not_obscured (reachable_unnamed _).wellFormed (by decide)

theorem sidings_shortestPath_measured :
    Reachable sidings ∧ (∃ edge ∈ sidings.edges, IsNaN edge.length) ∧
      ∃ found, sidings.Chain 0 found 1 ∧ sidings.Measured found ∧
        (sidings.shortestPath ⟨1.0, 0.0, 0.0⟩ ⟨0.0, 1.0, 0.0⟩).value =
          some (Polyline.join (found.map Ride.line) (some 0.0)) := by
  have hreach : Reachable sidings := reachable_unnamed _
  have hstart : sidings.vertexId? ⟨1.0, 0.0, 0.0⟩ = some 0 := by decide +kernel
  have hfinish : sidings.vertexId? ⟨0.0, 1.0, 0.0⟩ = some 1 := by decide +kernel
  have hlength : ¬ IsNaN (sidings.lengthOf 1) := by decide +kernel
  obtain ⟨found, hchain, hvalue, hbest⟩ := hreach.shortestPath_measured hstart hfinish (by decide)
    (chain_of_plain 1 rfl hstart hfinish) (by simpa [Measured] using hlength)
  exact ⟨hreach, by decide +kernel, found, hchain, (hbest sidings_not_obscured).1, hvalue⟩

/-- The same polyline behind one without a length that joins the same two vertices. -/
def fog : Network Float :=
  unnamed [[⟨1.0, 0.0, 0.0⟩, nowhere, ⟨0.0, 1.0, 0.0⟩], plainPoints]

theorem fog_measured_numbers {rides : List (Ride Float)} {a b : Nat}
    (hchain : fog.Chain a rides b) (hmeasured : fog.Measured rides) :
    ∀ line ∈ rides.map Ride.line, ∀ p ∈ line.points, ¬ IsNaN p.x := by
  have hplain : ∀ p ∈ plainPoints, ¬ IsNaN p.x := by decide +kernel
  induction hchain with
  | nil => nofun
  | @snoc rides ride b c _ hride ih =>
    obtain ⟨hrides, hlast⟩ := List.forall_mem_append.mp hmeasured
    rw [List.map_append]
    refine List.forall_mem_append.mpr ⟨ih hrides, ?_⟩
    rw [List.map_singleton]
    rintro line hline p hp
    cases List.mem_singleton.mp hline
    obtain ⟨stored, hget, hdirection⟩ := hride.stored
    have hlength := hlast ride (List.mem_singleton_self ride)
    have hid : ride.id = 1 := by
      have hlt : ride.id < 2 := Collection.lt_size_of_get? hget
      have hzero : IsNaN (fog.lengthOf 0) := by decide +kernel
      have hne : ride.id ≠ 0 := fun h => hlength (h ▸ hzero)
      omega
    rw [hid] at hget
    have hstored : stored = ⟨plainPoints, none⟩ := Option.some.inj (hget.symm.trans rfl)
    subst hstored
    rcases hdirection with hline | hline <;> rw [hline] at hp
    · exact hplain p hp
    · exact hplain p (List.mem_reverse.mp hp)

/-- A polyline without a length is found first and stays, although one with a length joins the same
two vertices. -/
theorem fog_hides_plain : ¬ ∀ (net : Network Float) (p q : Vec3 Float) (start finish : Nat)
    (rides : List (Ride Float)), Reachable net → net.vertexId? p = some start →
      net.vertexId? q = some finish → start ≠ finish → net.Chain start rides finish →
      net.Measured rides → ∃ found, net.Chain start found finish ∧ net.Measured found ∧
        (net.shortestPath p q).value =
          some (Polyline.join (found.map Ride.line) (some 0.0)) := by
  intro hclaim
  have hstart : fog.vertexId? ⟨1.0, 0.0, 0.0⟩ = some 0 := by decide +kernel
  have hfinish : fog.vertexId? ⟨0.0, 1.0, 0.0⟩ = some 1 := by decide +kernel
  have hlength : ¬ IsNaN (fog.lengthOf 1) := by decide +kernel
  obtain ⟨found, hchain, hmeasured, hvalue⟩ := hclaim fog _ _ 0 1 _ (reachable_unnamed _) hstart
    hfinish (by decide) (chain_of_plain 1 rfl hstart hfinish)
    (by simpa [Measured] using hlength)
  have hnowhere : (fog.shortestPath ⟨1.0, 0.0, 0.0⟩ ⟨0.0, 1.0, 0.0⟩).value.any
      fun path => path.points.any fun p => IsNaN p.x := by decide +kernel
  rw [hvalue, Option.any_some, List.any_eq_true] at hnowhere
  obtain ⟨p, hp, hnan⟩ := hnowhere
  obtain ⟨line, hline, hp⟩ := Polyline.exists_of_mem_join hp
  exact fog_measured_numbers hchain hmeasured line hline p hp (of_decide_eq_true hnan)

end Network

end TransitShapes
