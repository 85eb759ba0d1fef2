import Mathlib.Data.Set.Defs
import Dataflow.Fact.Basic
import Dataflow.Proofs.Lattice
import Dataflow.Solver.Sweep

/-!
# Facts over one domain form a bounded meet-semilattice with complement

`Lattice.lean` has what the solver needs of the order on sets: that it is an
order, and that the meet of two sets is the greatest set below both. The rest of
the algebra follows from this alone and does not ask which of the two lattices
it is about. Two sets with the same sets below them are equal
(`Meet.eq_of_forall_below`), so a law of the meet is a law of conjunction; in
particular, a list of sets may be met in any order and each of them as often as
one likes.

Only the complement has to look at the sets. It turns one lattice over, and what
it makes of a meet is a meet in the other one.

A fact also carries its domain and the way it meets, and may hold elements that
its domain has not. The order and the meet never look at the domain. Top, bottom
and complement do, and their laws are about the facts inside it (`Fact.inside`).
-/

namespace Dataflow

namespace Meet

variable {α : Type} [Element α]

/-- The other way to join facts. -/
def other : Meet → Meet
  | .union => .intersection
  | .intersection => .union

theorem bottom_subset (m : Meet) (domain : OrdSet α) :
    m.bottom domain ⊆ domain := by
  cases m with
  | union => exact OrdSet.subset_refl domain
  | intersection => exact OrdSet.empty_subset domain

/-- What is missing from a meet is the meet, in the other lattice, of what is
missing from the two. -/
theorem diff_meet (m : Meet) (domain s t : OrdSet α) :
    domain.diff (m.meet s t) =
      m.other.meet (domain.diff s) (domain.diff t) := by
  refine OrdSet.ext fun a => ?_
  cases m <;>
    simp only [meet, other, OrdSet.mem_diff, OrdSet.mem_union,
      OrdSet.mem_inter] <;> tauto

variable [DecidableEq α]

/-! ## The meet, from what lies below it -/

theorem below_meet_iff {m : Meet} {s t u : OrdSet α} :
    m.below s (m.meet t u) ↔ m.below s t ∧ m.below s u :=
  ⟨fun h => ⟨below_trans h (meet_below_left m t u),
    below_trans h (meet_below_right m t u)⟩,
    fun h => below_meet h.1 h.2⟩

theorem eq_of_forall_below (m : Meet) {s t : OrdSet α}
    (h : ∀ u, m.below u s ↔ m.below u t) : s = t :=
  below_antisymm ((h s).1 (below_refl m s)) ((h t).2 (below_refl m t))

theorem meet_comm (m : Meet) (s t : OrdSet α) : m.meet s t = m.meet t s :=
  eq_of_forall_below m fun u => by rw [below_meet_iff, below_meet_iff, and_comm]

theorem meet_assoc (m : Meet) (s t u : OrdSet α) :
    m.meet (m.meet s t) u = m.meet s (m.meet t u) :=
  eq_of_forall_below m fun v => by simp only [below_meet_iff, and_assoc]

theorem meet_eq_left_iff {m : Meet} {s t : OrdSet α} :
    m.meet s t = s ↔ m.below s t := by
  constructor
  · intro h
    have hbelow := meet_below_right m s t
    rwa [h] at hbelow
  · exact fun h => below_antisymm (meet_below_left m s t)
      (below_meet (below_refl m s) h)

theorem meet_self (m : Meet) (s : OrdSet α) : m.meet s s = s :=
  meet_eq_left_iff.2 (below_refl m s)

theorem bottom_below {m : Meet} {s domain : OrdSet α} (h : s ⊆ domain) :
    m.below (m.bottom domain) s := by
  cases m with
  | union => exact below_union.2 h
  | intersection => exact below_intersection.2 (OrdSet.empty_subset s)

theorem meet_top {m : Meet} {s domain : OrdSet α} (h : s ⊆ domain) :
    m.meet s (m.top domain) = s :=
  meet_eq_left_iff.2 (below_top h)

theorem bottom_meet {m : Meet} {s domain : OrdSet α} (h : s ⊆ domain) :
    m.meet (m.bottom domain) s = m.bottom domain :=
  meet_eq_left_iff.2 (bottom_below h)

/-! ## Complements -/

theorem diff_below_diff {m : Meet} {s t : OrdSet α} (h : m.below s t)
    (domain : OrdSet α) : m.below (domain.diff t) (domain.diff s) := by
  cases m with
  | union =>
      rw [below_union] at h ⊢
      exact OrdSet.diff_subset_diff h domain
  | intersection =>
      rw [below_intersection] at h ⊢
      exact OrdSet.diff_subset_diff h domain

theorem diff_below_diff_iff {m : Meet} {s t domain : OrdSet α} (hs : s ⊆ domain)
    (ht : t ⊆ domain) :
    m.below (domain.diff t) (domain.diff s) ↔ m.below s t := by
  refine ⟨fun h => ?_, fun h => diff_below_diff h domain⟩
  have htwice := diff_below_diff h domain
  rwa [OrdSet.diff_diff hs, OrdSet.diff_diff ht] at htwice

/-! ## Lists -/

/-- Meeting sets into one gives the greatest set below it and below all of
them. -/
theorem below_foldl_meet_iff {m : Meet} {s : OrdSet α}
    {sets : List (OrdSet α)} : ∀ {acc : OrdSet α},
      m.below s (sets.foldl m.meet acc) ↔
        m.below s acc ∧ ∀ t ∈ sets, m.below s t := by
  induction sets with
  | nil => simp
  | cons t sets ih =>
      intro acc
      rw [List.foldl_cons, ih, below_meet_iff, List.forall_mem_cons, and_assoc]

theorem foldl_meet_congr {m : Meet} {sets sets' : List (OrdSet α)}
    (h : ∀ t, t ∈ sets ↔ t ∈ sets') (acc : OrdSet α) :
    sets.foldl m.meet acc = sets'.foldl m.meet acc :=
  eq_of_forall_below m fun s => by simp only [below_foldl_meet_iff, h]

end Meet

/-! ## Facts -/

namespace Fact

variable {α : Type} [Element α] {domain : OrdSet α} {m : Meet} {a b : Fact α}

/-- The facts over a domain that meet in one way. -/
def family (domain : OrdSet α) (m : Meet) : Set (Fact α) :=
  {f | f.domain = domain ∧ f.lattice = m}

/-- Those among them that hold elements of the domain only. -/
def inside (domain : OrdSet α) (m : Meet) : Set (Fact α) :=
  {f | f ∈ family domain m ∧ f.elems ⊆ domain}

/-- Meets a list of facts into the top. -/
def meetAll (domain : OrdSet α) (m : Meet) (facts : List (Fact α)) : Fact α :=
  facts.foldl meet (top domain m)

theorem elems_meet (h : a ∈ family domain m) :
    (a.meet b).elems = m.meet a.elems b.elems := by
  rw [meet, h.2]
  rfl

theorem elems_complement (h : a ∈ family domain m) :
    a.complement.elems = domain.diff a.elems := by
  rw [complement, h.1]
  rfl

theorem meet_mem_family (h : a ∈ family domain m) :
    a.meet b ∈ family domain m := h

theorem complement_mem_inside (h : a ∈ family domain m) :
    a.complement ∈ inside domain m := by
  refine ⟨h, ?_⟩
  rw [elems_complement h]
  exact OrdSet.diff_subset domain a.elems

theorem top_mem_inside (domain : OrdSet α) (m : Meet) :
    top domain m ∈ inside domain m :=
  ⟨⟨rfl, rfl⟩, m.top_subset domain⟩

theorem bottom_mem_inside (domain : OrdSet α) (m : Meet) :
    bottom domain m ∈ inside domain m :=
  ⟨⟨rfl, rfl⟩, m.bottom_subset domain⟩

theorem meet_mem_inside (ha : a ∈ inside domain m) (hb : b ∈ inside domain m) :
    a.meet b ∈ inside domain m := by
  refine ⟨meet_mem_family ha.1, ?_⟩
  rw [elems_meet ha.1]
  exact Meet.meet_subset ha.2 hb.2

theorem foldl_meet_mem_inside {facts : List (Fact α)}
    (h : ∀ f ∈ facts, f ∈ inside domain m) :
    ∀ {acc : Fact α}, acc ∈ inside domain m →
      facts.foldl meet acc ∈ inside domain m := by
  induction facts with
  | nil => exact fun hacc => hacc
  | cons f facts ih =>
      intro acc hacc
      rw [List.forall_mem_cons] at h
      exact ih h.2 (meet_mem_inside hacc h.1)

theorem elems_foldl_meet {facts : List (Fact α)} :
    ∀ {acc : Fact α}, acc ∈ family domain m →
      (facts.foldl meet acc).elems =
        (facts.map elems).foldl m.meet acc.elems := by
  induction facts with
  | nil => exact fun _ => rfl
  | cons f facts ih =>
      intro acc h
      rw [List.foldl_cons, List.map_cons, List.foldl_cons,
        ih (meet_mem_family h), elems_meet h]

theorem elems_meetAll (domain : OrdSet α) (m : Meet) (facts : List (Fact α)) :
    (meetAll domain m facts).elems =
      (facts.map elems).foldl m.meet (m.top domain) :=
  elems_foldl_meet (top_mem_inside domain m).1

/-- What arrives at a quad is the meet of what leaves its origins. -/
theorem arriving_eq_meetAll {p : Problem α} {t : FactMap (OrdSet α)}
    {origins : List Neighbour} {sent : Neighbour → Fact α}
    (h : ∀ n ∈ origins, p.leaving t n = .ok (sent n).elems) :
    p.arriving t origins =
      .ok (meetAll p.domain p.meet (origins.map sent)).elems := by
  have hfold : ∀ acc : OrdSet α,
      origins.foldlM (fun acc n => do return p.meet.meet acc (← p.leaving t n))
        acc = .ok (((origins.map sent).map elems).foldl p.meet.meet acc) := by
    induction origins with
    | nil => exact fun _ => rfl
    | cons n rest ih =>
        intro acc
        rw [List.forall_mem_cons] at h
        rw [List.foldlM_cons, h.1]
        exact ih h.2 _
  rw [elems_meetAll]
  exact hfold p.top

variable [DecidableEq α]

theorem same_iff : a.same b ↔ a.elems = b.elems := decide_eq_true_iff

theorem below_iff (h : a ∈ family domain m) :
    a.below b ↔ m.below a.elems b.elems := by
  rw [below, h.2]

/-! ## The laws, part by part -/

/-- Facts are partially ordered by `below`, where two count as equal that are
the same. -/
structure OrderLaws (domain : OrdSet α) (m : Meet) : Prop where
  refl : ∀ a ∈ family domain m, a.below a
  trans : ∀ a ∈ family domain m, ∀ b ∈ family domain m, ∀ c ∈ family domain m,
    a.below b → b.below c → a.below c
  antisymm : ∀ a ∈ family domain m, ∀ b ∈ family domain m,
    a.below b ∧ b.below a ↔ a.same b

theorem orderLaws (domain : OrdSet α) (m : Meet) : OrderLaws domain m where
  refl a ha := (below_iff ha).2 (Meet.below_refl m a.elems)
  trans a ha b hb c _ hab hbc := by
    rw [below_iff ha] at hab ⊢
    rw [below_iff hb] at hbc
    exact Meet.below_trans hab hbc
  antisymm a ha b hb := by
    rw [below_iff ha, below_iff hb, same_iff]
    refine ⟨fun h => Meet.below_antisymm h.1 h.2, fun h => ?_⟩
    rw [h]
    exact ⟨Meet.below_refl m b.elems, Meet.below_refl m b.elems⟩

/-- The greatest fact below two facts is their `meet`. -/
structure MeetLaws (domain : OrdSet α) (m : Meet) : Prop where
  mem : ∀ a ∈ family domain m, ∀ b ∈ family domain m, a.meet b ∈ family domain m
  left : ∀ a ∈ family domain m, ∀ b ∈ family domain m, (a.meet b).below a
  right : ∀ a ∈ family domain m, ∀ b ∈ family domain m, (a.meet b).below b
  greatest : ∀ a ∈ family domain m, ∀ b ∈ family domain m,
    ∀ c ∈ family domain m, c.below a → c.below b → c.below (a.meet b)
  comm : ∀ a ∈ family domain m, ∀ b ∈ family domain m,
    (a.meet b).same (b.meet a)
  assoc : ∀ a ∈ family domain m, ∀ b ∈ family domain m, ∀ c ∈ family domain m,
    ((a.meet b).meet c).same (a.meet (b.meet c))
  idem : ∀ a ∈ family domain m, (a.meet a).same a
  same_iff_below : ∀ a ∈ family domain m, ∀ b ∈ family domain m,
    (a.meet b).same a ↔ a.below b

theorem meetLaws (domain : OrdSet α) (m : Meet) : MeetLaws domain m where
  mem a ha b _ := meet_mem_family ha
  left a ha b _ := by
    rw [below_iff (meet_mem_family ha), elems_meet ha]
    exact Meet.meet_below_left m a.elems b.elems
  right a ha b _ := by
    rw [below_iff (meet_mem_family ha), elems_meet ha]
    exact Meet.meet_below_right m a.elems b.elems
  greatest a ha b _ c hc hca hcb := by
    rw [below_iff hc] at hca hcb ⊢
    rw [elems_meet ha]
    exact Meet.below_meet hca hcb
  comm a ha b hb := by
    rw [same_iff, elems_meet ha, elems_meet hb, Meet.meet_comm]
  assoc a ha b hb c _ := by
    rw [same_iff, elems_meet (meet_mem_family ha), elems_meet ha, elems_meet ha,
      elems_meet hb, Meet.meet_assoc]
  idem a ha := by
    rw [same_iff, elems_meet ha, Meet.meet_self]
  same_iff_below a ha b _ := by
    rw [same_iff, elems_meet ha, below_iff ha, Meet.meet_eq_left_iff]

/-- The ends of the order are `top` and `bottom`. One changes nothing that it
meets, the other leaves nothing of it. -/
structure BoundLaws (domain : OrdSet α) (m : Meet) : Prop where
  top_mem : top domain m ∈ inside domain m
  bottom_mem : bottom domain m ∈ inside domain m
  meet_mem : ∀ a ∈ inside domain m, ∀ b ∈ inside domain m,
    a.meet b ∈ inside domain m
  below_top : ∀ a ∈ inside domain m, a.below (top domain m)
  bottom_below : ∀ a ∈ inside domain m, (bottom domain m).below a
  top_neutral : ∀ a ∈ inside domain m,
    (a.meet (top domain m)).same a ∧ ((top domain m).meet a).same a
  bottom_absorbs : ∀ a ∈ inside domain m,
    (a.meet (bottom domain m)).same (bottom domain m) ∧
      ((bottom domain m).meet a).same (bottom domain m)

theorem boundLaws (domain : OrdSet α) (m : Meet) : BoundLaws domain m where
  top_mem := top_mem_inside domain m
  bottom_mem := bottom_mem_inside domain m
  meet_mem _ ha _ hb := meet_mem_inside ha hb
  below_top a ha := (below_iff ha.1).2 (Meet.below_top ha.2)
  bottom_below a ha :=
    (below_iff (bottom_mem_inside domain m).1).2 (Meet.bottom_below ha.2)
  top_neutral a ha := by
    rw [same_iff, same_iff, elems_meet ha.1,
      elems_meet (top_mem_inside domain m).1,
      Meet.meet_comm m (top domain m).elems]
    exact ⟨Meet.meet_top ha.2, Meet.meet_top ha.2⟩
  bottom_absorbs a ha := by
    rw [same_iff, same_iff, elems_meet ha.1,
      elems_meet (bottom_mem_inside domain m).1, Meet.meet_comm m a.elems]
    exact ⟨Meet.bottom_meet ha.2, Meet.bottom_meet ha.2⟩

/-- An element outside of the domain keeps a fact from lying below the top. -/
example :
    ¬ (⟨.singleton ⟨2⟩, .singleton ⟨1⟩, .intersection⟩ : Fact QuadId).below
      (top (.singleton ⟨1⟩) .intersection) := by decide

/-- Taking the `complement` turns the order over, and one way to meet into the
other. -/
structure ComplementLaws (domain : OrdSet α) (m : Meet) : Prop where
  mem : ∀ a ∈ inside domain m, a.complement ∈ inside domain m
  involution : ∀ a ∈ inside domain m, a.complement.complement.same a
  reverses : ∀ a ∈ inside domain m, ∀ b ∈ inside domain m,
    b.complement.below a.complement ↔ a.below b
  /-- The complement of a meet is the meet of the complements, taken in the
  other way. -/
  deMorgan : ∀ a ∈ inside domain m, ∀ b ∈ inside domain m,
    ∀ a' ∈ inside domain m.other, ∀ b' ∈ inside domain m.other,
      a'.same a.complement → b'.same b.complement →
        (a.meet b).complement.same (a'.meet b')

theorem complementLaws (domain : OrdSet α) (m : Meet) :
    ComplementLaws domain m where
  mem a ha := complement_mem_inside ha.1
  involution a ha := by
    rw [same_iff, elems_complement (complement_mem_inside ha.1).1,
      elems_complement ha.1, OrdSet.diff_diff ha.2]
  reverses a ha b hb := by
    rw [below_iff (complement_mem_inside hb.1).1, below_iff ha.1,
      elems_complement ha.1, elems_complement hb.1,
      Meet.diff_below_diff_iff ha.2 hb.2]
  deMorgan a ha b hb a' ha' b' _ haa' hbb' := by
    rw [same_iff] at haa' hbb' ⊢
    rw [elems_complement (meet_mem_family ha.1), elems_meet ha.1,
      Meet.diff_meet, elems_meet ha'.1, haa', hbb', elems_complement ha.1,
      elems_complement hb.1]

/-- A list of facts is met into the greatest fact below all of them, in whatever
order they stand there and however often. What arrives at a quad is made in this
way. -/
structure ListLaws (domain : OrdSet α) (m : Meet) : Prop where
  mem : ∀ facts : List (Fact α), (∀ f ∈ facts, f ∈ inside domain m) →
    meetAll domain m facts ∈ inside domain m
  greatest : ∀ a ∈ inside domain m, ∀ facts : List (Fact α),
    a.below (meetAll domain m facts) ↔ ∀ f ∈ facts, a.below f
  congr : ∀ facts facts' : List (Fact α), (∀ f, f ∈ facts ↔ f ∈ facts') →
    (meetAll domain m facts).same (meetAll domain m facts')
  arriving : ∀ p : Problem α, p.domain = domain → p.meet = m →
    ∀ (t : FactMap (OrdSet α)) (origins : List Neighbour)
      (sent : Neighbour → Fact α),
      (∀ n ∈ origins, p.leaving t n = .ok (sent n).elems) →
        p.arriving t origins = .ok (meetAll domain m (origins.map sent)).elems

theorem listLaws (domain : OrdSet α) (m : Meet) : ListLaws domain m where
  mem _ h := foldl_meet_mem_inside h (top_mem_inside domain m)
  greatest a ha facts := by
    rw [below_iff ha.1, elems_meetAll, Meet.below_foldl_meet_iff,
      and_iff_right (Meet.below_top ha.2), List.forall_mem_map]
    exact forall₂_congr fun f _ => (below_iff ha.1).symm
  congr facts facts' h := by
    have hsets : ∀ s, s ∈ facts.map elems ↔ s ∈ facts'.map elems := by
      simp only [List.mem_map, h, implies_true]
    rw [same_iff, elems_meetAll, elems_meetAll, Meet.foldl_meet_congr hsets]
  arriving p hdomain hmeet t origins sent h := by
    rw [arriving_eq_meetAll h, hdomain, hmeet]

/-- Over any domain and with either way to meet, facts are partially ordered by
`below`, any two have a greatest fact below them, which is their meet, the order
has a greatest and a least fact, complements turn it over, and a list of facts
has one meet whatever its order and repetitions. -/
theorem facts_form_semilattice (domain : OrdSet α) (m : Meet) :
    OrderLaws domain m ∧ MeetLaws domain m ∧ BoundLaws domain m ∧
      ComplementLaws domain m ∧ ListLaws domain m :=
  ⟨orderLaws domain m, meetLaws domain m, boundLaws domain m,
    complementLaws domain m, listLaws domain m⟩

end Fact

end Dataflow
