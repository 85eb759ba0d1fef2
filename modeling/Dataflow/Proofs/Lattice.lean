import Mathlib.Data.List.Perm.Subperm
import Dataflow.Fact.Meet

/-!
# The two lattices of sets, one set of laws

`Meet.below`, `Meet.meet` and `Meet.top` are each written twice, once for facts
joined by union and once for facts joined by intersection, with the roles of
the set operations swapped. Everything the solver relies on is the same in
both: `below` is a partial order, `meet` is the greatest lower bound, and
`top` lies above every fact over the domain. The laws here are stated for an
arbitrary `Meet`, so nothing past this file has to ask which of the two it is.

The last section measures how far a fact can still fall. A fact over a domain
of `n` elements has rank at most `n`, and a fact strictly below another has
strictly smaller rank; that is all the height the termination argument needs.
-/

namespace Dataflow

namespace OrdSet

variable {α : Type} [Element α]

theorem subset_refl (s : OrdSet α) : s ⊆ s := fun _ h => h

theorem subset_trans {s t u : OrdSet α} (h : s ⊆ t) (h' : t ⊆ u) : s ⊆ u :=
  fun a ha => h' a (h a ha)

theorem subset_antisymm {s t : OrdSet α} (h : s ⊆ t) (h' : t ⊆ s) : s = t :=
  ext fun a => ⟨h a, h' a⟩

theorem empty_subset (s : OrdSet α) : ∅ ⊆ s :=
  fun a h => absurd h (not_mem_empty a)

theorem diff_subset (s t : OrdSet α) : s.diff t ⊆ s :=
  fun _ ha => (mem_diff.1 ha).1

theorem diff_subset_diff {s t : OrdSet α} (h : s ⊆ t) (whole : OrdSet α) :
    whole.diff t ⊆ whole.diff s := by
  intro a ha
  obtain ⟨hwhole, hnot⟩ := mem_diff.1 ha
  exact mem_diff.2 ⟨hwhole, fun hs => hnot (h a hs)⟩

/-- What is missing from what is missing from a part of a whole is that part. -/
theorem diff_diff {s whole : OrdSet α} (h : s ⊆ whole) :
    whole.diff (whole.diff s) = s := by
  refine ext fun a => ?_
  rw [mem_diff, mem_diff]
  by_cases ha : a ∈ s
  · simp [ha, h a ha]
  · simp [ha]

theorem nodup_toList (s : OrdSet α) : s.toList.Nodup :=
  s.ascending.imp Element.ne_of_lt

theorem size_le_of_subset {s t : OrdSet α} (h : s ⊆ t) : s.size ≤ t.size :=
  (List.subperm_of_subset (nodup_toList s) h).length_le

theorem eq_of_subset_of_size_le {s t : OrdSet α} (h : s ⊆ t)
    (hle : t.size ≤ s.size) : s = t := by
  have hperm :=
    (List.subperm_of_subset (nodup_toList s) h).perm_of_length_le hle
  exact ext fun a => hperm.mem_iff

end OrdSet

namespace Meet

variable {α : Type} [Element α]

theorem top_subset (m : Meet) (domain : OrdSet α) : m.top domain ⊆ domain := by
  cases m with
  | union => exact OrdSet.empty_subset domain
  | intersection => exact OrdSet.subset_refl domain

theorem meet_subset {m : Meet} {s t domain : OrdSet α} (hs : s ⊆ domain)
    (ht : t ⊆ domain) : m.meet s t ⊆ domain := by
  intro a ha
  cases m with
  | union => exact (OrdSet.mem_union.1 ha).elim (hs a) (ht a)
  | intersection => exact hs a (OrdSet.mem_inter.1 ha).1

variable [DecidableEq α]

theorem below_union {s t : OrdSet α} : union.below s t ↔ t ⊆ s :=
  OrdSet.subset_iff

theorem below_intersection {s t : OrdSet α} :
    intersection.below s t ↔ s ⊆ t :=
  OrdSet.subset_iff

/-! ## `below` is a partial order and `meet` its greatest lower bound -/

theorem below_refl (m : Meet) (s : OrdSet α) : m.below s s := by
  cases m with
  | union => exact below_union.2 (OrdSet.subset_refl s)
  | intersection => exact below_intersection.2 (OrdSet.subset_refl s)

theorem below_trans {m : Meet} {s t u : OrdSet α} (h : m.below s t)
    (h' : m.below t u) : m.below s u := by
  cases m with
  | union =>
      rw [below_union] at h h' ⊢
      exact OrdSet.subset_trans h' h
  | intersection =>
      rw [below_intersection] at h h' ⊢
      exact OrdSet.subset_trans h h'

theorem below_antisymm {m : Meet} {s t : OrdSet α} (h : m.below s t)
    (h' : m.below t s) : s = t := by
  cases m with
  | union =>
      rw [below_union] at h h'
      exact OrdSet.subset_antisymm h' h
  | intersection =>
      rw [below_intersection] at h h'
      exact OrdSet.subset_antisymm h h'

theorem meet_below_left (m : Meet) (s t : OrdSet α) :
    m.below (m.meet s t) s := by
  cases m with
  | union => exact below_union.2 fun a ha => OrdSet.mem_union.2 (Or.inl ha)
  | intersection =>
      exact below_intersection.2 fun a ha => (OrdSet.mem_inter.1 ha).1

theorem meet_below_right (m : Meet) (s t : OrdSet α) :
    m.below (m.meet s t) t := by
  cases m with
  | union => exact below_union.2 fun a ha => OrdSet.mem_union.2 (Or.inr ha)
  | intersection =>
      exact below_intersection.2 fun a ha => (OrdSet.mem_inter.1 ha).2

theorem below_meet {m : Meet} {s t u : OrdSet α} (ht : m.below s t)
    (hu : m.below s u) : m.below s (m.meet t u) := by
  cases m with
  | union =>
      rw [below_union] at ht hu ⊢
      exact fun a ha => (OrdSet.mem_union.1 ha).elim (ht a) (hu a)
  | intersection =>
      rw [below_intersection] at ht hu ⊢
      exact fun a ha => OrdSet.mem_inter.2 ⟨ht a ha, hu a ha⟩

theorem meet_mono {m : Meet} {s s' t t' : OrdSet α} (hs : m.below s s')
    (ht : m.below t t') : m.below (m.meet s t) (m.meet s' t') :=
  below_meet (below_trans (meet_below_left m s t) hs)
    (below_trans (meet_below_right m s t) ht)

theorem below_top {m : Meet} {s domain : OrdSet α} (h : s ⊆ domain) :
    m.below s (m.top domain) := by
  cases m with
  | union => exact below_union.2 (OrdSet.empty_subset s)
  | intersection => exact below_intersection.2 h

/-- A function that respects inclusion inside a domain respects the order of
either lattice there. -/
theorem below_of_monotone {m : Meet} {domain s t : OrdSet α}
    {f : OrdSet α → OrdSet α}
    (hf : ∀ s t, t ⊆ domain → s ⊆ t → f s ⊆ f t)
    (hs : s ⊆ domain) (ht : t ⊆ domain) (h : m.below s t) :
    m.below (f s) (f t) := by
  cases m with
  | union =>
      rw [below_union] at h ⊢
      exact hf t s hs h
  | intersection =>
      rw [below_intersection] at h ⊢
      exact hf s t ht h

/-! ## How far a fact can still fall -/

/-- The number of elements that a fact over a domain can still take up, where
facts are joined by union, or lose, where they are joined by intersection. -/
def rank : Meet → OrdSet α → OrdSet α → Nat
  | .union, domain, s => domain.size - s.size
  | .intersection, _, s => s.size

omit [DecidableEq α] in
theorem rank_le_size {m : Meet} {domain s : OrdSet α} (h : s ⊆ domain) :
    m.rank domain s ≤ domain.size := by
  cases m with
  | union => exact Nat.sub_le _ _
  | intersection => exact OrdSet.size_le_of_subset h

theorem rank_le_of_below {m : Meet} {domain s t : OrdSet α}
    (h : m.below s t) : m.rank domain s ≤ m.rank domain t := by
  cases m with
  | union =>
      have hsize := OrdSet.size_le_of_subset (below_union.1 h)
      simp only [rank]
      omega
  | intersection => exact OrdSet.size_le_of_subset (below_intersection.1 h)

theorem rank_lt_of_below {m : Meet} {domain s t : OrdSet α}
    (hs : s ⊆ domain) (h : m.below s t) (hne : s ≠ t) :
    m.rank domain s < m.rank domain t := by
  cases m with
  | union =>
      have hsub := below_union.1 h
      have hdom := OrdSet.size_le_of_subset hs
      have hlt : t.size < s.size := by
        refine Nat.lt_of_not_le fun hle => hne ?_
        exact (OrdSet.eq_of_subset_of_size_le hsub hle).symm
      simp only [rank]
      omega
  | intersection =>
      have hsub := below_intersection.1 h
      refine Nat.lt_of_not_le fun hle => hne ?_
      exact OrdSet.eq_of_subset_of_size_le hsub hle

end Meet

end Dataflow
