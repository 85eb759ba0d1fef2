import Mathlib.Data.List.Induction
import Dataflow.Proofs.Elementwise

/-!
# As many sweeps as quads, and two more

The bound on sweeps that every lawful problem has counts the elements of the
domain. Three of the four analyses do much better: their sweeps are bounded by
the number of quads alone. What sets them apart is that a transfer treats each
element by itself (`Problem.Separable`): whether it leaves a quad depends on
whether it arrives there, and on no other element. Faintness is not like that.

So one element can be followed through all sweeps as if it were the only one.
A sweep reads facts that leave quads and nothing else, so two sweeps in a row
that begin with the element leaving the same quads also end so, and from then
on it never changes again. As long as it has not come to rest, then, each sweep
changes where it leaves. The facts only fall, so the element falls at one more
quad each time, and after one sweep per quad there is no quad left. That number
does not depend on the element: after as many sweeps as there are quads no fact
that leaves a quad changes any more, whatever the domain.

Two sweeps remain. One brings the facts that arrive, and the one at the target,
up to date with those that leave; the last finds nothing to do. Nothing in this
asks for distinct numbers. Without them the loop may run forever, but from there
on all its sweeps are alike, so if it stops at all it stops in time.
-/

namespace Dataflow

namespace Meet

variable {α : Type} [Element α] [DecidableEq α]

/-- An element is where falling takes it: in the fact, when facts are joined by
union, and out of it, when they are joined by intersection. -/
def fallen : Meet → α → OrdSet α → Bool
  | .union, a, s => a ∈ s
  | .intersection, a, s => a ∉ s

theorem fallen_of_below {m : Meet} {a : α} {s t : OrdSet α} (h : m.below s t)
    (ht : m.fallen a t) : m.fallen a s := by
  cases m with
  | union =>
      have hmem : a ∈ t := by simpa [fallen] using ht
      simpa [fallen] using below_union.1 h a hmem
  | intersection =>
      have hmem : a ∉ t := by simpa [fallen] using ht
      have hout : a ∉ s := fun ha => hmem (below_intersection.1 h a ha)
      simpa [fallen] using hout

theorem mem_iff_of_fallen_eq {m : Meet} {a : α} {s t : OrdSet α}
    (h : m.fallen a s = m.fallen a t) : a ∈ s ↔ a ∈ t := by
  cases m with
  | union => simpa [fallen] using h
  | intersection => simpa [fallen, not_iff_not] using h

end Meet

theorem countP_lt_countP {β : Type} {P Q : β → Bool} {l : List β} {x : β}
    (hx : x ∈ l) (himp : ∀ y ∈ l, P y → Q y) (hP : P x = false) (hQ : Q x) :
    l.countP P < l.countP Q := by
  obtain ⟨front, back, rfl⟩ := List.append_of_mem hx
  have hfront : front.countP P ≤ front.countP Q :=
    List.countP_mono_left fun y hy => himp y (List.mem_append_left _ hy)
  have hback : back.countP P ≤ back.countP Q :=
    List.countP_mono_left fun y hy =>
      himp y (List.mem_append_right _ (List.mem_cons_of_mem x hy))
  rw [List.countP_append, List.countP_append,
    List.countP_cons_of_neg (by simp [hP]), List.countP_cons_of_pos hQ]
  omega

namespace Problem

variable {α : Type} [Element α] {p : Problem α} {g : Graph} {e : QuadGraph}
  {v w : Valuation α}

/-! ## Two valuations swept side by side -/

theorem steps_relate (R : Valuation α → Valuation α → Prop) {l : List Station}
    (hstep : ∀ s ∈ l, ∀ v w, R v w → R (p.step v s) (p.step w s)) :
    ∀ {v w : Valuation α}, R v w → R (p.steps v l) (p.steps w l) := by
  induction l with
  | nil =>
      intro v w h
      exact h
  | cons s rest ih =>
      intro v w h
      exact ih (fun s' hs' => hstep s' (List.mem_cons_of_mem s hs'))
        (hstep s List.mem_cons_self v w h)

/-- What every step keeps, and every write of the target, a sweep keeps. -/
theorem swept_relate (R : Valuation α → Valuation α → Prop) {r : Route}
    (hstep : ∀ s ∈ r.stations, ∀ v w, R v w → R (p.step v s) (p.step w s))
    (htarget : ∀ x y v w, R v w → R (v.setTerminal p.direction.target x)
      (w.setTerminal p.direction.target y)) (h : R v w) :
    R (p.swept r v) (p.swept r w) :=
  htarget _ _ _ _ (steps_relate R hstep h)

/-- The valuation after some sweeps. -/
def after (p : Problem α) (r : Route) : Nat → Valuation α
  | 0 => p.start
  | k + 1 => p.swept r (p.after r k)

theorem after_source (p : Problem α) (r : Route) (k : Nat) :
    (p.after r k).terminal p.direction.source = p.atSource := by
  induction k with
  | zero => exact p.start_source
  | succ k ih =>
      rw [after, Problem.swept,
        Valuation.terminal_setTerminal_of_ne p.direction.source_ne_target,
        steps_terminal, ih]

/-! ## One element -/

/-- Whether an element leaves a quad depends only on whether it arrives
there. -/
def Separable (p : Problem α) (g : Graph) : Prop :=
  ∀ q ∈ g.quads, ∀ a s t, (a ∈ s ↔ a ∈ t) →
    (a ∈ p.transfer q s ↔ a ∈ p.transfer q t)

theorem mem_inflow_congr {a : α} {origins : List Neighbour}
    (h : ∀ n ∈ origins, a ∈ p.outflow v n ↔ a ∈ p.outflow w n) :
    a ∈ p.inflow v origins ↔ a ∈ p.inflow w origins := by
  cases hmeet : p.meet with
  | union =>
      rw [mem_inflow_union hmeet, mem_inflow_union hmeet]
      exact exists_congr fun n => and_congr_right (h n)
  | intersection =>
      rw [mem_inflow_intersection hmeet, mem_inflow_intersection hmeet]
      exact and_congr_right fun _ => forall₂_congr h

/-- An element leaves the same quads, and the source, in two valuations. -/
structure Agree (p : Problem α) (g : Graph) (a : α) (v w : Valuation α) :
    Prop where
  departure : ∀ q, g.Visits q → (a ∈ v.fact p.direction.departure q ↔
    a ∈ w.fact p.direction.departure q)
  source : a ∈ v.terminal p.direction.source ↔ a ∈ w.terminal p.direction.source

namespace Agree

variable {a : α} {s : Station}

theorem inflow (h : p.Agree g a v w) {origins : List Neighbour}
    (ho : ∀ q, some q ∈ origins → g.Visits q) :
    a ∈ p.inflow v origins ↔ a ∈ p.inflow w origins := by
  refine mem_inflow_congr fun n hn => ?_
  cases n with
  | none => exact h.source
  | some q => exact h.departure q (ho q hn)

theorem step (hsep : p.Separable g) (he : g.quadGraph = .ok e)
    (hs : s ∈ (g.layout e p.direction).stations) (h : p.Agree g a v w) :
    p.Agree g a (p.step v s) (p.step w s) := by
  obtain ⟨quad, hquad, rfl⟩ := Graph.mem_layout.1 hs
  have hin : a ∈ p.inflow v (e.origins p.direction quad.id) ↔
      a ∈ p.inflow w (e.origins p.direction quad.id) :=
    h.inflow fun _ => QuadGraph.visits_of_mem_origins he
  refine ⟨fun q hq => ?_, h.source⟩
  by_cases hne : q = quad.id
  · subst hne
    have hv := p.step_departure v ⟨quad, e.origins p.direction quad.id⟩
    have hw := p.step_departure w ⟨quad, e.origins p.direction quad.id⟩
    rw [hv, hw]
    exact hsep quad hquad a _ _ hin
  · rw [step_of_ne hne, step_of_ne hne]
    exact h.departure q hq

theorem swept (hsep : p.Separable g) (he : g.quadGraph = .ok e)
    (h : p.Agree g a v w) :
    p.Agree g a (p.swept (g.layout e p.direction) v)
      (p.swept (g.layout e p.direction) w) := by
  refine swept_relate (p.Agree g a) (fun s hs _ _ h => h.step hsep he hs)
    (fun x y _ _ h => ⟨h.departure, ?_⟩) h
  rw [Valuation.terminal_setTerminal_of_ne p.direction.source_ne_target,
    Valuation.terminal_setTerminal_of_ne p.direction.source_ne_target]
  exact h.source

/-- What has arrived at a station is decided by what leaves others, once a sweep
has been there. -/
theorem steps_arrival (hsep : p.Separable g) (he : g.quadGraph = .ok e)
    (h : p.Agree g a v w) {l : List Station}
    (hl : ∀ s ∈ l, s ∈ (g.layout e p.direction).stations) :
    ∀ s ∈ l, a ∈ (p.steps v l).fact p.direction.arrival s.quad.id ↔
      a ∈ (p.steps w l).fact p.direction.arrival s.quad.id := by
  -- from the right, since the last visit of a slot decides
  induction l using List.reverseRecOn with
  | nil => simp
  | append_singleton front last ih =>
      have hfront : ∀ s ∈ front, s ∈ (g.layout e p.direction).stations :=
        fun s hs => hl s (List.mem_append_left _ hs)
      have hlast := hl last (List.mem_append_right _ List.mem_cons_self)
      have hagree : p.Agree g a (p.steps v front) (p.steps w front) :=
        steps_relate (p.Agree g a)
          (fun s hs _ _ h => h.step hsep he (hfront s hs)) h
      obtain ⟨quad, -, rfl⟩ := Graph.mem_layout.1 hlast
      have hin :
          a ∈ p.inflow (p.steps v front) (e.origins p.direction quad.id) ↔
          a ∈ p.inflow (p.steps w front) (e.origins p.direction quad.id) :=
        hagree.inflow fun _ => QuadGraph.visits_of_mem_origins he
      intro s hs
      simp only [Problem.steps, List.foldl_append, List.foldl_cons,
        List.foldl_nil]
      by_cases hid : s.quad.id = quad.id
      · rw [hid]
        have harr :=
          fun u => p.step_arrival u ⟨quad, e.origins p.direction quad.id⟩
        rw [harr, harr]
        exact hin
      · rw [step_of_ne hid, step_of_ne hid]
        rcases List.mem_append.1 hs with hs | hs
        · exact ih hfront s hs
        · rw [List.mem_singleton.1 hs] at hid
          exact absurd rfl hid

end Agree

/-! ## All facts that a sweep can see -/

/-- Two valuations have the same facts at every quad of the program order and at
both ends. -/
structure Matches (g : Graph) (v w : Valuation α) : Prop where
  fact : ∀ q, g.Visits q → ∀ side, v.fact side q = w.fact side q
  terminal : v.terminal = w.terminal

theorem matches_swept (hsep : p.Separable g) (he : g.quadGraph = .ok e)
    (h : ∀ a, p.Agree g a v w) :
    Matches g (p.swept (g.layout e p.direction) v)
      (p.swept (g.layout e p.direction) w) := by
  have hsteps : ∀ a, p.Agree g a (p.steps v (g.layout e p.direction).stations)
      (p.steps w (g.layout e p.direction).stations) := fun a =>
    steps_relate (p.Agree g a) (fun s hs _ _ h => h.step hsep he hs) (h a)
  refine ⟨fun q hq side => OrdSet.ext fun a => ?_, ?_⟩
  · rcases p.direction.side_eq side with rfl | rfl
    · obtain ⟨quad, hquad, rfl⟩ := hq
      exact (h a).steps_arrival hsep he (fun s hs => hs) _
        (Graph.mem_layout.2 ⟨quad, hquad, rfl⟩)
    · exact (hsteps a).departure q hq
  · have hsource : v.terminal p.direction.source =
        w.terminal p.direction.source :=
      OrdSet.ext fun a => (h a).source
    funext t
    rcases p.direction.terminal_eq t with rfl | rfl
    · unfold Problem.swept
      rw [Valuation.terminal_setTerminal_of_ne p.direction.source_ne_target,
        Valuation.terminal_setTerminal_of_ne p.direction.source_ne_target,
        steps_terminal, steps_terminal, hsource]
    · unfold Problem.swept
      rw [Valuation.terminal_setTerminal_self,
        Valuation.terminal_setTerminal_self]
      exact OrdSet.ext fun a =>
        (hsteps a).inflow fun _ => QuadGraph.visits_of_mem_finals he

theorem Matches.inflow (h : Matches g v w) {origins : List Neighbour}
    (ho : ∀ q, some q ∈ origins → g.Visits q) :
    p.inflow v origins = p.inflow w origins := by
  refine OrdSet.ext fun a => mem_inflow_congr fun n hn => ?_
  cases n with
  | none => rw [outflow, outflow, h.terminal]
  | some q => rw [outflow, outflow, h.fact q (ho q hn)]

theorem Matches.step (h : Matches g v w) {s : Station}
    (ho : ∀ q, some q ∈ s.origins → g.Visits q) :
    Matches g (p.step v s) (p.step w s) := by
  have hin : p.inflow v s.origins = p.inflow w s.origins := h.inflow ho
  refine ⟨fun q hq side => ?_, h.terminal⟩
  by_cases hne : q = s.quad.id
  · subst hne
    rcases p.direction.side_eq side with rfl | rfl
    · rw [step_arrival, step_arrival, hin]
    · rw [step_departure, step_departure, hin]
  · rw [step_of_ne hne, step_of_ne hne]
    exact h.fact q hq side

section Passes

variable [DecidableEq α] {r : Route}

theorem Matches.arrivalsFrom {l : List Station}
    (hq : ∀ s ∈ l, g.Visits s.quad.id)
    (ho : ∀ s ∈ l, ∀ q, some q ∈ s.origins → g.Visits q) :
    ∀ {v w : Valuation α}, Matches g v w →
      p.arrivalsFrom v l = p.arrivalsFrom w l := by
  induction l with
  | nil => exact fun _ => rfl
  | cons s rest ih =>
      intro v w h
      have hin : p.inflow v s.origins = p.inflow w s.origins :=
        h.inflow (ho s List.mem_cons_self)
      have hfacts := h.fact s.quad.id (hq s List.mem_cons_self)
      rw [Problem.arrivalsFrom, Problem.arrivalsFrom,
        ih (fun s' hs' => hq s' (List.mem_cons_of_mem s hs'))
          (fun s' hs' => ho s' (List.mem_cons_of_mem s hs'))
          (h.step (ho s List.mem_cons_self)),
        arrivalAt, arrivalAt, hin, hfacts, hfacts]

/-- Sweeps that begin with the same facts report the same, and end with the same
facts. -/
theorem Matches.sweep (hr : r.Within g) (h : Matches g v w) :
    p.passFrom r v = p.passFrom r w ∧
      Matches g (p.swept r v) (p.swept r w) := by
  have hsteps : Matches g (p.steps v r.stations) (p.steps w r.stations) :=
    steps_relate (Matches g) (fun s hs _ _ h => h.step (hr.origin s hs)) h
  have hfinal : p.inflow (p.steps v r.stations) r.final =
      p.inflow (p.steps w r.stations) r.final := hsteps.inflow hr.final
  refine ⟨?_, hsteps.fact, ?_⟩
  · unfold passFrom
    rw [h.arrivalsFrom hr.quad hr.origin, hfinal, h.terminal]
  · funext t
    show (if t = _ then _ else _) = if t = _ then _ else _
    rw [hfinal, hsteps.terminal]

/-- A loop that comes to rest does so at once where a sweep only repeats what
the last one left. -/
theorem Settles.at_once (hr : r.Within g) {passes : List (Pass α)}
    {u : Valuation α} (h : p.Settles r v passes u)
    (hsame : Matches g v (p.swept r v)) : passes.length = 1 := by
  induction h with
  | last => rfl
  | @more v w passes hmoved rest ih =>
      obtain ⟨hpass, hnext⟩ := hsame.sweep (p := p) hr
      -- the sweep that follows reports what this one did
      cases rest with
      | last hzero => exact absurd (hpass ▸ hzero) hmoved
      | more hmoved' rest' =>
          have hlength := ih hnext
          cases rest' <;> simp at hlength

/-- Some sweeps on, the loop has come to rest or has as many passes less to
go. -/
theorem Settles.after {passes : List (Pass α)} {u : Valuation α}
    (h : p.Settles r p.start passes u) (k : Nat) :
    passes.length ≤ k ∨ ∃ later, p.Settles r (p.after r k) later u ∧
      passes.length = later.length + k := by
  induction k with
  | zero => exact Or.inr ⟨passes, h, rfl⟩
  | succ k ih =>
      rcases ih with hle | ⟨later, hlater, hlength⟩
      · exact Or.inl (Nat.le_succ_of_le hle)
      · cases hlater with
        | last => exact Or.inl (by simp [hlength, Nat.add_comm])
        | @more _ _ later' _ rest =>
            refine Or.inr ⟨later', rest, ?_⟩
            rw [hlength, List.length_cons]
            omega

end Passes

/-! ## How far one element can fall -/

section Falling

variable [DecidableEq α]

theorem Under.step (hlaw : p.Lawful g) (he : g.quadGraph = .ok e) {s : Station}
    (hs : s ∈ (g.layout e p.direction).stations) (hw : p.Over g w)
    (hv : p.Over g v) (h : p.Under g w v) :
    p.Under g (p.step w s) (p.step v s) := by
  obtain ⟨quad, hquad, rfl⟩ := Graph.mem_layout.1 hs
  have ho : ∀ q, some q ∈ e.origins p.direction quad.id → g.Visits q :=
    fun _ => QuadGraph.visits_of_mem_origins he
  have hin := h.inflow ho
  have hout :=
    hlaw.transfer_below hquad (hw.inflow_subset ho) (hv.inflow_subset ho) hin
  refine ⟨fun q hq side => ?_, h.source⟩
  by_cases hne : q = quad.id
  · subst hne
    rcases p.direction.side_eq side with rfl | rfl
    · have harr :=
        fun u => p.step_arrival u ⟨quad, e.origins p.direction quad.id⟩
      rw [harr, harr]
      exact hin
    · have hdep :=
        fun u => p.step_departure u ⟨quad, e.origins p.direction quad.id⟩
      rw [hdep, hdep]
      exact hout
  · rw [step_of_ne hne, step_of_ne hne]
    exact h.fact q hq side

/-- Both valuations are over the domain, and the first lies below the second. -/
structure Falls (p : Problem α) (g : Graph) (w v : Valuation α) : Prop where
  lower : p.Over g w
  upper : p.Over g v
  under : p.Under g w v

theorem Falls.swept (hlaw : p.Lawful g) (he : g.quadGraph = .ok e)
    (h : p.Falls g w v) :
    p.Falls g (p.swept (g.layout e p.direction) w)
      (p.swept (g.layout e p.direction) v) := by
  refine swept_relate (p.Falls g) (fun s hs w v h => ?_) (fun x y w v h => ?_) h
  · obtain ⟨quad, hquad, rfl⟩ := Graph.mem_layout.1 hs
    have ho : ∀ q, some q ∈ e.origins p.direction quad.id → g.Visits q :=
      fun _ => QuadGraph.visits_of_mem_origins he
    exact ⟨h.lower.step hlaw hquad ho, h.upper.step hlaw hquad ho,
      h.under.step hlaw he hs h.lower h.upper⟩
  · refine ⟨h.lower.setTarget x, h.upper.setTarget y, h.under.fact, ?_⟩
    rw [Valuation.terminal_setTerminal_of_ne p.direction.source_ne_target,
      Valuation.terminal_setTerminal_of_ne p.direction.source_ne_target]
    exact h.under.source

/-- Each sweep from the start leaves facts below those it found. -/
theorem falls_after (hlaw : p.Lawful g) (he : g.quadGraph = .ok e) (k : Nat) :
    p.Falls g (p.after (g.layout e p.direction) (k + 1))
      (p.after (g.layout e p.direction) k) := by
  induction k with
  | zero =>
      have hstart := (start_descending hlaw he).bounded
      have hfirst : p.Over g (p.swept (g.layout e p.direction) p.start) := by
        refine Over.setTarget
          (steps_keep (p.Over g) (fun s hs v hv => ?_) hstart) _
        obtain ⟨quad, hquad, rfl⟩ := Graph.mem_layout.1 hs
        exact hv.step hlaw hquad fun _ => QuadGraph.visits_of_mem_origins he
      refine ⟨hfirst, hstart,
        fun q hq side => Meet.below_top (hfirst.fact q hq side), ?_⟩
      show p.meet.below
        ((p.swept (g.layout e p.direction) p.start).terminal _) _
      unfold Problem.swept
      rw [Valuation.terminal_setTerminal_of_ne p.direction.source_ne_target,
        steps_terminal]
      exact Meet.below_refl _ _
  | succ k ih => exact ih.swept hlaw he

/-- At how many quads an element has fallen. -/
def fallenAt (p : Problem α) (g : Graph) (a : α) (v : Valuation α) : Nat :=
  g.quads.countP fun q => p.meet.fallen a (v.fact p.direction.departure q.id)

/-- Where an element does not leave the same quads as before, it has fallen at
one more. -/
theorem Under.fallenAt_lt {a : α} (h : p.Under g w v)
    (hsource : w.terminal p.direction.source = v.terminal p.direction.source)
    (hdiff : ¬ p.Agree g a v w) : p.fallenAt g a v < p.fallenAt g a w := by
  have hfall : ∀ q ∈ g.quads,
      p.meet.fallen a (v.fact p.direction.departure q.id) →
      p.meet.fallen a (w.fact p.direction.departure q.id) := fun q hq =>
    Meet.fallen_of_below (h.fact q.id ⟨q, hq, rfl⟩ p.direction.departure)
  have hquad : ∃ q ∈ g.quads,
      p.meet.fallen a (v.fact p.direction.departure q.id) ≠
        p.meet.fallen a (w.fact p.direction.departure q.id) := by
    by_contra hnone
    push Not at hnone
    refine hdiff ⟨?_, by rw [hsource]⟩
    rintro q ⟨quad, hquad, rfl⟩
    exact Meet.mem_iff_of_fallen_eq (hnone quad hquad)
  obtain ⟨q, hq, hne⟩ := hquad
  have hbefore : p.meet.fallen a (v.fact p.direction.departure q.id) =
      false := by
    refine Bool.eq_false_iff.2 fun htrue => hne ?_
    rw [htrue, hfall q hq htrue]
  refine countP_lt_countP hq hfall hbefore ?_
  rw [hbefore] at hne
  exact Bool.eq_true_of_not_eq_false hne.symm

end Falling

/-! ## The bound -/

section Bound

variable [DecidableEq α]

/-- An element has come to rest, or has fallen at one more quad for each
sweep. -/
theorem agree_or_fallen (hlaw : p.Lawful g) (hsep : p.Separable g)
    (he : g.quadGraph = .ok e) (a : α) (k : Nat) :
    p.Agree g a (p.after (g.layout e p.direction) k)
        (p.after (g.layout e p.direction) (k + 1)) ∨
      k + 1 ≤ p.fallenAt g a (p.after (g.layout e p.direction) (k + 1)) := by
  have hgrows : ∀ k, ¬ p.Agree g a (p.after (g.layout e p.direction) k)
        (p.after (g.layout e p.direction) (k + 1)) →
      p.fallenAt g a (p.after (g.layout e p.direction) k) <
        p.fallenAt g a (p.after (g.layout e p.direction) (k + 1)) :=
    fun k hdiff => (falls_after hlaw he k).under.fallenAt_lt
      (by rw [after_source, after_source]) hdiff
  induction k with
  | zero =>
      by_cases hagree : p.Agree g a (p.after (g.layout e p.direction) 0)
          (p.after (g.layout e p.direction) (0 + 1))
      · exact Or.inl hagree
      · exact Or.inr (Nat.lt_of_le_of_lt (Nat.zero_le _) (hgrows 0 hagree))
  | succ k ih =>
      by_cases hagree : p.Agree g a
          (p.after (g.layout e p.direction) (k + 1))
          (p.after (g.layout e p.direction) (k + 1 + 1))
      · exact Or.inl hagree
      · -- had it been at rest before, it would be now
        have hbefore := ih.resolve_left fun h => hagree (h.swept hsep he)
        exact Or.inr (Nat.lt_of_le_of_lt hbefore (hgrows (k + 1) hagree))

/-- A loop that comes to rest does so after one sweep for each quad and two
more, when the problem treats each element by itself. -/
theorem Settles.length_le (hlaw : p.Lawful g) (hsep : p.Separable g)
    (he : g.quadGraph = .ok e) {passes : List (Pass α)}
    (h : p.Settles (g.layout e p.direction) p.start passes v) :
    passes.length ≤ g.quads.length + 2 := by
  have hrest : ∀ a, p.Agree g a
      (p.after (g.layout e p.direction) g.quads.length)
      (p.after (g.layout e p.direction) (g.quads.length + 1)) := by
    intro a
    refine (agree_or_fallen hlaw hsep he a g.quads.length).resolve_right
      fun hle => ?_
    exact absurd (Nat.le_trans hle List.countP_le_length) (by omega)
  have hsame := matches_swept hsep he hrest
  rcases h.after (g.quads.length + 1) with hle | ⟨later, hlater, hlength⟩
  · omega
  · have hone := hlater.at_once (Graph.layout_within he p.direction) hsame
    omega

/-! ## What the solver reports -/

/-- The solver's loop answers only with where sweeping comes to rest. -/
theorem settles_of_settle {r : Route} (hr : r.Within g) :
    ∀ (limit done : Nat) {t t' : FactMap (OrdSet α)} {v : Valuation α}
      {passes : List (Pass α)}, t.Shows g v →
      p.settle r done limit t = .ok (t', passes) →
      ∃ w, p.Settles r v passes w := by
  intro limit
  induction limit with
  | zero =>
      intro done t t' v passes _ h
      cases h
  | succ limit ih =>
      intro done t t' v passes ht h
      obtain ⟨t₁, hsweep, ht₁⟩ := sweep_eq (p := p) hr ht
      rw [settle, hsweep] at h
      simp only [bind, Except.bind] at h
      split at h
      · next hzero =>
          cases h
          exact ⟨_, .last hzero⟩
      · next hmoved =>
          cases hloop : p.settle r (done + 1) limit t₁ with
          | error f => rw [hloop] at h; cases h
          | ok out =>
              obtain ⟨t₂, later⟩ := out
              rw [hloop] at h
              cases h
              obtain ⟨w, hw⟩ := ih (done + 1) ht₁ hloop
              exact ⟨w, .more hmoved hw⟩

theorem exists_settles_of_solve {sol : Solution α} (h : p.solve g = .ok sol) :
    ∃ e v, g.quadGraph = .ok e ∧
      p.Settles (g.layout e p.direction) p.start sol.passes v ∧
      sol.quads = g.quads.length := by
  unfold solve at h
  obtain ⟨r, hroute, halong⟩ := exists_of_bind_eq_ok h
  have hquads : ∃ e, g.quadGraph = .ok e := by
    unfold Graph.route at hroute
    obtain ⟨e, he, -⟩ := exists_of_bind_eq_ok hroute
    exact ⟨e, he⟩
  obtain ⟨e, he⟩ := hquads
  rw [Graph.route_eq he] at hroute
  cases hroute
  unfold solveAlong at halong
  obtain ⟨⟨t, passes⟩, hloop, hsol⟩ := exists_of_bind_eq_ok halong
  cases hsol
  obtain ⟨v, hv⟩ := settles_of_settle (Graph.layout_within he p.direction) _ _
    (p.initial_shows g) hloop
  refine ⟨e, v, he, hv, ?_⟩
  show ((g.layout e p.direction).stations.map Station.quad).length = _
  rw [Graph.layout_quads, Graph.length_sweepOrder]

end Bound

end Problem

/-! ## The analyses -/

theorem ReachingDefinitions.separable (g : Graph) :
    (problem g).Separable g := by
  intro q _ d s t h
  show d ∈ transfer _ q s ↔ d ∈ transfer _ q t
  rw [mem_transfer, mem_transfer, h]

theorem Liveness.separable (g : Graph) : (problem g).Separable g := by
  intro q _ r s t h
  show r ∈ transfer q s ↔ r ∈ transfer q t
  rw [mem_transfer, mem_transfer, h]

theorem NonNull.separable (g : Graph) : (problem g).Separable g := by
  intro q _ r s t h
  show r ∈ transfer q s ↔ r ∈ transfer q t
  rw [mem_transfer, mem_transfer, h]

section Visits

variable {σ α : Type} [DecidableEq α] [Element α] {p : Problem α} {g : Graph}

/-- A visit that ends well has solved its problem. -/
theorem Visit.exists_solution {old : σ} {prepared : List Event}
    {conclude : Solution α → σ × List Event} {stats : Stats}
    (h : (Visit.solve old g prepared p conclude).result = .ok stats) :
    ∃ sol, p.solve g = .ok sol ∧ sol.stats = stats := by
  unfold Visit.solve Problem.run at h
  unfold Problem.solve
  cases hroute : g.route p.direction with
  | error f =>
      rw [hroute] at h
      cases h
  | ok r =>
      rw [hroute] at h
      simp only [bind, Except.bind]
      cases halong : p.solveAlong g r with
      | error f =>
          simp only [halong] at h
          cases h
      | ok sol =>
          simp only [halong] at h
          exact ⟨sol, rfl, Except.ok.inj h⟩

/-- What a visit reports of its work, on whatever graph, if it ends well. -/
theorem Problem.Lawful.sweeps_le (hlaw : p.Lawful g) (hsep : p.Separable g)
    {old : σ} {prepared : List Event} {conclude : Solution α → σ × List Event}
    {stats : Stats}
    (h : (Visit.solve old g prepared p conclude).result = .ok stats) :
    stats.quads = g.quads.length ∧ stats.sweeps ≤ stats.quads + 2 := by
  obtain ⟨sol, hsol, rfl⟩ := Visit.exists_solution h
  obtain ⟨e, v, he, hsettles, hquads⟩ := Problem.exists_settles_of_solve hsol
  refine ⟨hquads, ?_⟩
  show sol.passes.length ≤ sol.quads + 2
  rw [hquads]
  exact hsettles.length_le hlaw hsep he

/-- A visit of a proper graph ends well, and in time. -/
theorem Problem.Lawful.visit_prompt (hlaw : p.Lawful g) (hsep : p.Separable g)
    (hends : g.HasEnds) (hdist : g.DistinctQuads) (old : σ)
    (prepared : List Event) (conclude : Solution α → σ × List Event) :
    ∃ stats, (Visit.solve old g prepared p conclude).result = .ok stats ∧
      stats.quads = g.quads.length ∧ stats.sweeps ≤ stats.quads + 2 := by
  obtain ⟨stats, hresult, -⟩ :=
    hlaw.visit_bounded hends hdist old prepared conclude
  exact ⟨stats, hresult, hlaw.sweeps_le hsep hresult⟩

end Visits

/-- Reaching definitions, liveness and the non-null analysis settle after at
most one sweep for each quad and two more, whatever loops the graph has and
however many registers or definitions. For the non-null analysis that holds as
well of the graph that it has inserted checks into. -/
theorem sweeps_le_quads_add_two {g : Graph} (hends : g.HasEnds)
    (hdist : g.DistinctQuads) :
    (∀ s, ∃ stats, (ReachingDefinitions.visit s g).result = .ok stats ∧
      stats.quads = g.quads.length ∧ stats.sweeps ≤ stats.quads + 2) ∧
    (∀ s, ∃ stats, (Liveness.visit s g).result = .ok stats ∧
      stats.quads = g.quads.length ∧ stats.sweeps ≤ stats.quads + 2) ∧
    (∀ s, s.inserting = false → ∃ stats,
      (NonNull.visit s g).result = .ok stats ∧ stats.quads = g.quads.length ∧
        stats.sweeps ≤ stats.quads + 2) ∧
    ∀ s stats, s.inserting = true → (NonNull.visit s g).result = .ok stats →
      stats.quads = g.insertChecks.graph.quads.length ∧
        stats.sweeps ≤ stats.quads + 2 := by
  refine ⟨fun s => ?_, fun s => ?_, fun s hs => ?_,
    fun s stats hs hresult => ?_⟩
  · exact (ReachingDefinitions.lawful g).visit_prompt
      (ReachingDefinitions.separable g) hends hdist _ _ _
  · exact (Liveness.lawful g).visit_prompt
      (Liveness.separable g) hends hdist _ _ _
  · rw [NonNull.visit_eq_analyse hs]
    exact (NonNull.lawful g).visit_prompt
      (NonNull.separable g) hends hdist _ _ _
  · unfold NonNull.visit at hresult
    rw [if_pos hs] at hresult
    cases hinsert : g.insertChecks.result with
    | error f =>
        simp only [hinsert] at hresult
        cases hresult
    | ok inserted =>
        simp only [hinsert] at hresult
        exact (NonNull.lawful _).sweeps_le (NonNull.separable _) hresult

/-- A definition that reaches itself: a block with one quad that leads to
itself. -/
def Graph.selfLoop : Graph where
  method := ⟨"self", []⟩
  blocks := .ofList [
    (.entry, ⟨.entry, [], [], [⟨2⟩]⟩),
    (.exit, ⟨.exit, [], [⟨2⟩], []⟩),
    (⟨2⟩,
      ⟨⟨2⟩, [⟨⟨1⟩, .move ⟨"R0"⟩ (.const .null)⟩], [.entry, ⟨2⟩], [⟨2⟩, .exit]⟩)]
  nextQuad := 2
  nextBlock := 3

/-- The bound is met on one quad; and a loop with a check inserted into it. -/
theorem sweeps_le_quads_add_two_loops :
    (Graph.selfLoop.HasEnds ∧ Graph.selfLoop.DistinctQuads ∧
      (ReachingDefinitions.visit .fresh .selfLoop).result = .ok ⟨3, 1⟩ ∧
      ∃ stats, (ReachingDefinitions.visit .fresh .selfLoop).result = .ok stats ∧
        stats.sweeps ≤ 3) ∧
    (Graph.smallLoop.HasEnds ∧ Graph.smallLoop.DistinctQuads ∧
      Graph.smallLoop.quads.length = 4 ∧
      Graph.smallLoop.insertChecks.graph.quads.length = 5 ∧
      ∃ stats, (NonNull.visit (.fresh true) .smallLoop).result = .ok stats ∧
        stats.quads = 5 ∧ stats.sweeps ≤ 7) := by
  refine ⟨⟨by decide, by decide, rfl, ?_⟩, by decide, by decide, rfl, rfl, ?_⟩
  · obtain ⟨hreaching, -⟩ :=
      sweeps_le_quads_add_two (g := .selfLoop) (by decide) (by decide)
    obtain ⟨stats, hresult, hquads, hsweeps⟩ := hreaching .fresh
    have hone : Graph.selfLoop.quads.length = 1 := rfl
    rw [hquads, hone] at hsweeps
    exact ⟨stats, hresult, hsweeps⟩
  · obtain ⟨-, -, -, hinserting⟩ :=
      sweeps_le_quads_add_two (g := .smallLoop) (by decide) (by decide)
    have hends : (NonNull.visit (.fresh true) .smallLoop).result.toOption =
        some ⟨2, 5⟩ := by decide +kernel
    have hfive : Graph.smallLoop.insertChecks.graph.quads.length = 5 := rfl
    cases hresult : (NonNull.visit (.fresh true) .smallLoop).result with
    | error f =>
        rw [hresult] at hends
        cases hends
    | ok stats =>
        obtain ⟨hquads, hsweeps⟩ := hinserting _ stats rfl hresult
        rw [hfive] at hquads
        rw [hquads] at hsweeps
        exact ⟨stats, rfl, hquads, hsweeps⟩

end Dataflow
