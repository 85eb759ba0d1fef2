import Mathlib.Data.List.Chain
import Dataflow.Proofs.Elementwise

/-!
# Elements that quads hand on

Facts that are joined by union from an empty source hold an element for a
reason that can be pointed to: a quad has brought it forth, and other quads have
handed it on, possibly as another element. A `Relay` says which quads do that.
This file shows that a problem whose transfers follow a relay is solved by
exactly the elements that have a `Trail`, a list of quads from the place in
question against the flow of facts to the quad that brings the element forth.

The elements on a trail may differ from quad to quad, so nothing can be said of
one element at a time. The induction goes along the trail in one direction, and
in the other over the sweeps: an element is recorded as arriving only when it
leaves an origin, and then the origin's trail, or the origin itself, is the
reason.
-/

namespace Dataflow

/-- How quads bring forth and hand on elements. -/
structure Relay (α : Type) where
  /-- The quad sends out the element whatever arrives. -/
  brings : Quad → α → Prop
  /-- The quad sends out the first element when the second arrives. -/
  hands : Quad → α → α → Prop

namespace Relay

variable {α : Type} {t : Relay α} {g : Graph} {e : QuadGraph} {d : Direction}
  {origins : List Neighbour} {a : α}

/-- A list of visited quads, each with the element that it sends out. The first
is one of the given origins and sends out the element in question, each sends
out its element because the next, one of its own origins, sends out another,
and the last brings its element forth. -/
structure Trail (t : Relay α) (g : Graph) (e : QuadGraph) (d : Direction)
    (origins : List Neighbour) (a : α) (stops : List (Quad × α)) : Prop where
  visited : ∀ s ∈ stops, s.1 ∈ g.quads
  linked : stops.IsChain fun s s' =>
    some s'.1.id ∈ e.origins d s.1.id ∧ t.hands s.1 s.2 s'.2
  first : ∃ q, stops.head? = some (q, a) ∧ some q.id ∈ origins
  last : ∃ q b, stops.getLast? = some (q, b) ∧ t.brings q b

theorem Trail.single {q : Quad} (hq : q ∈ g.quads) (ho : some q.id ∈ origins)
    (hbrings : t.brings q a) : t.Trail g e d origins a [(q, a)] := by
  refine ⟨?_, List.isChain_singleton _, ⟨q, rfl, ho⟩, ⟨q, a, rfl, hbrings⟩⟩
  intro s hs
  obtain rfl := List.mem_singleton.1 hs
  exact hq

theorem Trail.cons {q : Quad} {b : α} {stops : List (Quad × α)}
    (hq : q ∈ g.quads) (ho : some q.id ∈ origins) (hhands : t.hands q a b)
    (h : t.Trail g e d (e.origins d q.id) b stops) :
    t.Trail g e d origins a ((q, a) :: stops) := by
  obtain ⟨hvisited, hlinked, ⟨p, hhead, hp⟩, hlast⟩ := h
  cases stops with
  | nil => cases hhead
  | cons s rest =>
      cases hhead
      refine ⟨?_, List.isChain_cons_cons.2 ⟨⟨hp, hhands⟩, hlinked⟩,
        ⟨q, rfl, ho⟩, hlast⟩
      intro x hx
      rcases List.mem_cons.1 hx with rfl | hx
      · exact hq
      · exact hvisited x hx

/-- A trail ends with its first quad, or goes on from there. -/
theorem Trail.uncons {stops : List (Quad × α)}
    (h : t.Trail g e d origins a stops) :
    ∃ q rest, stops = (q, a) :: rest ∧ q ∈ g.quads ∧ some q.id ∈ origins ∧
      (t.brings q a ∧ rest = [] ∨
        ∃ b, t.hands q a b ∧ t.Trail g e d (e.origins d q.id) b rest) := by
  obtain ⟨hvisited, hlinked, ⟨q, hhead, ho⟩, ⟨p, b, hlast, hbrings⟩⟩ := h
  cases stops with
  | nil => cases hhead
  | cons s rest =>
      cases hhead
      refine ⟨q, rest, rfl, hvisited _ List.mem_cons_self, ho, ?_⟩
      cases rest with
      | nil =>
          cases hlast
          exact Or.inl ⟨hbrings, rfl⟩
      | cons s' rest =>
          obtain ⟨⟨hedge, hhands⟩, hlinked⟩ := List.isChain_cons_cons.1 hlinked
          refine Or.inr ⟨s'.2, hhands, ?_, hlinked, ⟨s'.1, rfl, hedge⟩,
            ⟨p, b, ?_, hbrings⟩⟩
          · exact fun x hx => hvisited x (List.mem_cons_of_mem _ hx)
          · rwa [List.getLast?_cons_cons] at hlast

/-- An element has a trail when one of the origins brings it forth or hands on
an element that has a trail from there. -/
theorem exists_trail_iff :
    (∃ stops, t.Trail g e d origins a stops) ↔
      ∃ q ∈ g.quads, some q.id ∈ origins ∧ (t.brings q a ∨
        ∃ b, t.hands q a b ∧
          ∃ stops, t.Trail g e d (e.origins d q.id) b stops) := by
  constructor
  · rintro ⟨stops, h⟩
    obtain ⟨q, rest, -, hq, ho, hcase⟩ := h.uncons
    refine ⟨q, hq, ho, hcase.imp And.left ?_⟩
    rintro ⟨b, hhands, htrail⟩
    exact ⟨b, hhands, rest, htrail⟩
  · rintro ⟨q, hq, ho, hbrings | ⟨b, hhands, stops, htrail⟩⟩
    · exact ⟨_, Trail.single hq ho hbrings⟩
    · exact ⟨_, htrail.cons hq ho hhands⟩

/-- What has a trail in one graph has one in another with the same edges, if
each quad has a counterpart there that brings forth and hands on what it does.
It need hand on only what has a trail from there in both graphs. -/
theorem exists_trail_of_matched {g' : Graph}
    (hmatch : ∀ q ∈ g.quads, ∃ q' ∈ g'.quads, q'.id = q.id ∧
      (∀ a, t.brings q a → t.brings q' a) ∧
      ∀ a b, (∃ stops, t.Trail g e d (e.origins d q.id) b stops) →
        (∃ stops, t.Trail g' e d (e.origins d q.id) b stops) →
        t.hands q a b → t.hands q' a b)
    (h : ∃ stops, t.Trail g e d origins a stops) :
    ∃ stops, t.Trail g' e d origins a stops := by
  obtain ⟨stops, h⟩ := h
  induction stops generalizing origins a with
  | nil =>
      obtain ⟨q, hhead, -⟩ := h.first
      cases hhead
  | cons s rest ih =>
      obtain ⟨q, rest, hstops, hq, ho, hcase⟩ := h.uncons
      cases hstops
      obtain ⟨q', hq', hid, hbrings, hhands⟩ := hmatch q hq
      rw [← hid] at ho
      rcases hcase with ⟨hbring, -⟩ | ⟨b, hhand, htrail⟩
      · exact ⟨_, Trail.single hq' ho (hbrings a hbring)⟩
      · obtain ⟨stops', htrail'⟩ := ih htrail
        have hhand' := hhands a b ⟨rest, htrail⟩ ⟨stops', htrail'⟩ hhand
        exact ⟨_, Trail.cons hq' ho hhand' (hid ▸ htrail')⟩

end Relay

/-! ## What is found has a trail -/

namespace Problem

variable {α : Type} [DecidableEq α] [Element α] {p : Problem α} {t : Relay α}
  {g : Graph} {e : QuadGraph} {v : Valuation α} {passes : List (Pass α)}

/-- Facts are joined by union, nothing comes from the source, and what a quad
sends out is what a relay says. -/
structure Follows (p : Problem α) (g : Graph) (t : Relay α) : Prop where
  union : p.meet = .union
  source : p.atSource = ∅
  transfer : ∀ q ∈ g.quads, ∀ s a,
    a ∈ p.transfer q s ↔ t.brings q a ∨ ∃ b ∈ s, t.hands q a b

omit [DecidableEq α] in
theorem Follows.mem_departure (hfollows : p.Follows g t)
    (hv : p.IsSolution g e v) {q : Quad} (hq : q ∈ g.quads) {a : α} :
    a ∈ v.fact p.direction.departure q.id ↔
      t.brings q a ∨ ∃ b ∈ v.fact p.direction.arrival q.id, t.hands q a b := by
  rw [hv.departure q hq]
  exact hfollows.transfer q hq _ a

omit [DecidableEq α] in
theorem Follows.mem_inflow (hfollows : p.Follows g t)
    (hv : p.IsSolution g e v) {origins : List Neighbour}
    (ho : ∀ i, some i ∈ origins → g.Visits i) {a : α} :
    a ∈ p.inflow v origins ↔ ∃ q ∈ g.quads, some q.id ∈ origins ∧
      (t.brings q a ∨
        ∃ b ∈ v.fact p.direction.arrival q.id, t.hands q a b) := by
  have hsource := hv.source
  rw [hfollows.source] at hsource
  rw [mem_inflow_quads hfollows.union hsource ho]
  refine exists_congr fun q => and_congr_right fun hq =>
    and_congr_right fun _ => ?_
  exact hfollows.mem_departure hv hq

omit [DecidableEq α] in
theorem Follows.mem_inflow_of_trail (hfollows : p.Follows g t)
    (he : g.quadGraph = .ok e) (hv : p.IsSolution g e v)
    {stops : List (Quad × α)} :
    ∀ {origins : List Neighbour} {a : α},
      (∀ i, some i ∈ origins → g.Visits i) →
      t.Trail g e p.direction origins a stops → a ∈ p.inflow v origins := by
  induction stops with
  | nil =>
      intro origins a _ htrail
      obtain ⟨q, hhead, -⟩ := htrail.first
      cases hhead
  | cons s rest ih =>
      intro origins a ho htrail
      obtain ⟨q, rest, hstops, hq, hmem, hcase⟩ := htrail.uncons
      cases hstops
      refine (hfollows.mem_inflow hv ho).2 ⟨q, hq, hmem, ?_⟩
      rcases hcase with ⟨hbrings, -⟩ | ⟨b, hhands, htrail⟩
      · exact Or.inl hbrings
      · refine Or.inr ⟨b, ?_, hhands⟩
        rw [hv.arrival q hq]
        exact ih (fun _ => QuadGraph.visits_of_mem_origins he) htrail

theorem Follows.trail_of_mem_arrival (hfollows : p.Follows g t)
    (he : g.quadGraph = .ok e) (hdist : g.DistinctQuads)
    (h : p.Settles (g.layout e p.direction) p.start passes v) {q : Quad}
    (hq : q ∈ g.quads) {a : α} (ha : a ∈ v.fact p.direction.arrival q.id) :
    ∃ stops, t.Trail g e p.direction (e.origins p.direction q.id) a stops := by
  -- the sweeps start from empty facts, so each fact is handed on from somewhere
  refine h.accounted
    (fun q a => ∃ stops,
      t.Trail g e p.direction (e.origins p.direction q.id) a stops)
    (fun q a => t.brings q a ∨ ∃ b, t.hands q a b ∧ ∃ stops,
      t.Trail g e p.direction (e.origins p.direction q.id) b stops)
    hfollows.union he hdist (fun q _ n hn a hsent => ?_)
    (fun q hq s hs a ha => ?_) q hq a ha
  · cases n with
    | none =>
        rw [Sent, hfollows.source] at hsent
        exact absurd hsent (OrdSet.not_mem_empty a)
    | some i =>
        obtain ⟨q', hq', rfl, hleaves⟩ := hsent
        exact Relay.exists_trail_iff.2 ⟨q', hq', hn, hleaves⟩
  · rcases (hfollows.transfer q hq s a).1 ha with hbrings | ⟨b, hb, hhands⟩
    · exact Or.inl hbrings
    · exact Or.inr ⟨b, hhands, hs b hb⟩

/-- What arrives from some neighbours is what has a trail starting among
them. -/
theorem Follows.mem_inflow_iff (hfollows : p.Follows g t)
    (he : g.quadGraph = .ok e) (hdist : g.DistinctQuads)
    (h : p.Settles (g.layout e p.direction) p.start passes v)
    {origins : List Neighbour} (ho : ∀ i, some i ∈ origins → g.Visits i)
    {a : α} :
    a ∈ p.inflow v origins ↔
      ∃ stops, t.Trail g e p.direction origins a stops := by
  have hv := h.isSolution
  constructor
  · intro ha
    obtain ⟨q, hq, hmem, hcase⟩ := (hfollows.mem_inflow hv ho).1 ha
    refine Relay.exists_trail_iff.2 ⟨q, hq, hmem, hcase.imp_right ?_⟩
    rintro ⟨b, hb, hhands⟩
    exact ⟨b, hhands, hfollows.trail_of_mem_arrival he hdist h hq hb⟩
  · rintro ⟨stops, htrail⟩
    exact hfollows.mem_inflow_of_trail he hv ho htrail

theorem Follows.mem_arrival_iff (hfollows : p.Follows g t)
    (he : g.quadGraph = .ok e) (hdist : g.DistinctQuads)
    (h : p.Settles (g.layout e p.direction) p.start passes v) {q : Quad}
    (hq : q ∈ g.quads) {a : α} :
    a ∈ v.fact p.direction.arrival q.id ↔
      ∃ stops,
        t.Trail g e p.direction (e.origins p.direction q.id) a stops := by
  rw [h.isSolution.arrival q hq]
  exact hfollows.mem_inflow_iff he hdist h
    fun _ => QuadGraph.visits_of_mem_origins he

/-- What leaves a quad is what has a trail starting at the quad itself. -/
theorem Follows.mem_departure_iff (hfollows : p.Follows g t)
    (he : g.quadGraph = .ok e) (hdist : g.DistinctQuads)
    (h : p.Settles (g.layout e p.direction) p.start passes v) {q : Quad}
    (hq : q ∈ g.quads) {a : α} :
    a ∈ v.fact p.direction.departure q.id ↔
      ∃ stops, t.Trail g e p.direction [some q.id] a stops := by
  have hself : ∀ i, some i ∈ [some q.id] → g.Visits i := by
    intro i hi
    cases List.mem_singleton.1 hi
    exact ⟨q, hq, rfl⟩
  rw [← hfollows.mem_inflow_iff he hdist h hself,
    hfollows.mem_inflow h.isSolution hself,
    hfollows.mem_departure h.isSolution hq]
  constructor
  · intro hcase
    exact ⟨q, hq, List.mem_singleton_self _, hcase⟩
  · rintro ⟨q', hq', hid, hcase⟩
    obtain rfl := hdist.eq_of_id_eq hq' hq
      (Option.some.inj (List.mem_singleton.1 hid))
    exact hcase

theorem Follows.mem_target_iff (hfollows : p.Follows g t)
    (he : g.quadGraph = .ok e) (hdist : g.DistinctQuads)
    (h : p.Settles (g.layout e p.direction) p.start passes v) {a : α} :
    a ∈ v.terminal p.direction.target ↔
      ∃ stops, t.Trail g e p.direction (e.finals p.direction) a stops := by
  rw [h.isSolution.target]
  exact hfollows.mem_inflow_iff he hdist h
    fun _ => QuadGraph.visits_of_mem_finals he

end Problem

end Dataflow
