import Dataflow.Graph.Search

/-!
# What the two stack walks report

Some facts about the walks of `Graph/Search.lean` hold whatever their bound on
steps is. `lookThrough` reports only what can be seen from where it starts, and
nothing twice: a sight enters `found` at the one place where a node was looked
at and showed it, and only if it is not there yet. `reversePostorder` lists only
nodes that can be reached, and none twice. A node is finished by its `finish`
job, and that job is pushed only when the node enters `seen`, which it does
once. So the nodes with a `finish` job on the stack together with the finished
ones form a list without repetition, all of it seen; the induction carries that.

That the walks miss nothing depends on the bound, and the bound is counted here.
A walk takes a step for each entry of the stack, and entries are pushed for
neighbours only, and only when a node is seen for the first time. So the stack
and `untouched`, the number of edges out of nodes not seen yet, together pay for
all steps to come. A search pays double, once for the visit and once for the
finish. A number that covers all edges is `Counted`, and it is bound enough for
either walk. With the bound out of the way, what was seen is closed: every
neighbour of a seen node is seen too or waits on the stack, and at the end
nothing waits.
-/

namespace Dataflow.Search

variable {α β : Type}

/-! ## The stack of jobs -/

/-- The nodes that still wait to be finished. -/
def pending : List (Job α) → List α
  | [] => []
  | .visit _ :: jobs => pending jobs
  | .finish a :: jobs => a :: pending jobs

theorem pending_visits (l : List α) (jobs : List (Job α)) :
    pending (l.map .visit ++ jobs) = pending jobs := by
  induction l with
  | nil => rfl
  | cons a l ih => exact ih

theorem visit_mem_cons {a x : α} {jobs : List (Job α)} :
    .visit x ∈ .visit a :: jobs ↔ x = a ∨ .visit x ∈ jobs := by
  simp

theorem visit_mem_expand {l : List α} {a x : α} {jobs : List (Job α)} :
    .visit x ∈ l.map .visit ++ .finish a :: jobs ↔
      x ∈ l ∨ .visit x ∈ jobs := by
  simp

theorem finish_mem_expand {l : List α} {a x : α} {jobs : List (Job α)} :
    .finish x ∈ l.map .visit ++ .finish a :: jobs ↔
      x = a ∨ .finish x ∈ jobs := by
  simp

/-- The steps that the jobs on a stack take, their neighbours apart. -/
def weight : List (Job α) → Nat
  | [] => 0
  | .visit _ :: jobs => 2 + weight jobs
  | .finish _ :: jobs => 1 + weight jobs

theorem weight_visits (l : List α) (jobs : List (Job α)) :
    weight (l.map .visit ++ jobs) = 2 * l.length + weight jobs := by
  induction l with
  | nil => simp
  | cons a l ih =>
      rw [List.map_cons, List.cons_append, weight, ih, List.length_cons]
      omega

/-- Every seen node is finished or waits to be, and so do its neighbours or
they wait to be visited. -/
structure Tracked (next : α → List α) (jobs : List (Job α))
    (seen finished : List α) : Prop where
  seen_iff : ∀ a, a ∈ seen ↔ a ∈ finished ∨ .finish a ∈ jobs
  ahead : ∀ a ∈ seen, ∀ c ∈ next a, c ∈ seen ∨ .visit c ∈ jobs

theorem Tracked.finish {next : α → List α} {a : α} {jobs : List (Job α)}
    {seen finished : List α}
    (h : Tracked next (.finish a :: jobs) seen finished) :
    Tracked next jobs seen (a :: finished) := by
  refine ⟨fun x => ?_, fun x hx c hc => ?_⟩
  · rw [h.seen_iff, List.mem_cons, List.mem_cons, Job.finish.injEq]
    exact or_left_comm.trans or_assoc.symm
  · exact (h.ahead x hx c hc).imp_right fun hc =>
      (List.mem_cons.1 hc).resolve_left (by simp)

theorem Tracked.skip {next : α → List α} {a : α} {jobs : List (Job α)}
    {seen finished : List α} (hseen : a ∈ seen)
    (h : Tracked next (.visit a :: jobs) seen finished) :
    Tracked next jobs seen finished := by
  refine ⟨fun x => ?_, fun x hx c hc => ?_⟩
  · rw [h.seen_iff]
    simp
  · rcases h.ahead x hx c hc with hc | hc
    · exact Or.inl hc
    · rcases visit_mem_cons.1 hc with rfl | hc
      · exact Or.inl hseen
      · exact Or.inr hc

section Fresh

variable [DecidableEq α] {next : α → List α} {seen : List α} {a : α}

theorem mem_fresh {c : α} : c ∈ fresh next seen a ↔ c ∈ next a ∧ c ∉ seen := by
  simp [fresh]

theorem length_fresh_le (next : α → List α) (seen : List α) (a : α) :
    (fresh next seen a).length ≤ (next a).length :=
  List.length_filter_le _ _

theorem Tracked.expand {jobs : List (Job α)} {finished : List α}
    (h : Tracked next (.visit a :: jobs) seen finished) :
    Tracked next ((fresh next (a :: seen) a).map .visit ++ .finish a :: jobs)
      (a :: seen) finished := by
  refine ⟨fun x => ?_, fun x hx c hc => ?_⟩
  · rw [List.mem_cons, h.seen_iff, finish_mem_expand]
    simp [or_left_comm]
  · by_cases hold : c ∈ a :: seen
    · exact Or.inl hold
    · rw [visit_mem_expand, mem_fresh]
      rcases List.mem_cons.1 hx with rfl | hx
      · exact Or.inr (Or.inl ⟨hc, hold⟩)
      · rcases h.ahead x hx c hc with hc | hc
        · exact absurd (List.mem_cons_of_mem a hc) hold
        · rcases visit_mem_cons.1 hc with rfl | hc
          · exact absurd List.mem_cons_self hold
          · exact Or.inr (Or.inr hc)

end Fresh

/-! ## The stack of nodes -/

/-- The nodes that a walk goes on to. -/
def Sight.onward : Sight α β → List α
  | .leadsTo next => next
  | _ => []

/-- A node of a list shows something, or leads on to nodes from which it can be
seen. -/
inductive Sees (look : α → Sight α β) : List α → β → Prop where
  | here {start : List α} {a : α} {b : β} (ha : a ∈ start)
      (hlook : look a = .shows b) : Sees look start b
  | through {start : List α} {a : α} {b : β} (ha : a ∈ start)
      (h : Sees look (look a).onward b) : Sees look start b

/-- Every seen node is done with: what it shows is found, and where it leads to
is seen or waits on the stack. -/
structure Surveyed (look : α → Sight α β) (seen stack : List α)
    (found : List β) : Prop where
  shown : ∀ a ∈ seen, ∀ b, look a = .shows b → b ∈ found
  ahead : ∀ a ∈ seen, ∀ c ∈ (look a).onward, c ∈ seen ∨ c ∈ stack

theorem Surveyed.skip {look : α → Sight α β} {a : α} {seen rest : List α}
    {found : List β} (hseen : a ∈ seen)
    (h : Surveyed look seen (a :: rest) found) :
    Surveyed look seen rest found := by
  refine ⟨h.shown, fun x hx c hc => ?_⟩
  rcases h.ahead x hx c hc with hc | hc
  · exact Or.inl hc
  · rcases List.mem_cons.1 hc with rfl | hc
    · exact Or.inl hseen
    · exact Or.inr hc

theorem Surveyed.enter {look : α → Sight α β} {a : α} {seen rest : List α}
    {found found' : List β} (h : Surveyed look seen (a :: rest) found)
    (hfound : ∀ b, b ∈ found' ↔ b ∈ found ∨ look a = .shows b) :
    Surveyed look (a :: seen) ((look a).onward ++ rest) found' := by
  refine ⟨fun x hx b hlook => (hfound b).2 ?_, fun x hx c hc => ?_⟩
  · rcases List.mem_cons.1 hx with rfl | hx
    · exact Or.inr hlook
    · exact Or.inl (h.shown x hx b hlook)
  · rw [List.mem_cons, List.mem_append]
    rcases List.mem_cons.1 hx with rfl | hx
    · exact Or.inr (Or.inl hc)
    · rcases h.ahead x hx c hc with hc | hc
      · exact Or.inl (Or.inr hc)
      · rcases List.mem_cons.1 hc with rfl | hc
        · exact Or.inl (Or.inl rfl)
        · exact Or.inr (Or.inr hc)

theorem Sees.mem_of_surveyed {look : α → Sight α β} {start all : List α}
    {found : List β} {b : β} (h : Sees look start b)
    (hdone : Surveyed look all [] found) (hsub : ∀ a ∈ start, a ∈ all) :
    b ∈ found := by
  induction h with
  | here ha hlook => exact hdone.shown _ (hsub _ ha) _ hlook
  | through ha _ ih =>
      refine ih fun c hc => ?_
      exact (hdone.ahead _ (hsub _ ha) c hc).resolve_right (by simp)

theorem Sees.mono {look : α → Sight α β} {start start' : List α} {b : β}
    (h : Sees look start b) (hsub : ∀ a ∈ start, a ∈ start') :
    Sees look start' b := by
  cases h with
  | here ha hlook => exact .here (hsub _ ha) hlook
  | through ha h => exact .through (hsub _ ha) h

theorem Sees.exists_shows {look : α → Sight α β} {start : List α} {b : β}
    (h : Sees look start b) : ∃ a, look a = .shows b := by
  induction h with
  | here _ hlook => exact ⟨_, hlook⟩
  | through _ _ ih => exact ih

/-! ## Only what can be seen -/

variable [DecidableEq β]

/-- What has been found once a sight is taken in. -/
def Sight.report (found : List β) : Sight α β → List β
  | .shows b => if b ∈ found then found else found ++ [b]
  | _ => found

theorem Sight.mem_report {found : List β} {sight : Sight α β} {b : β} :
    b ∈ sight.report found ↔ b ∈ found ∨ sight = .shows b := by
  cases sight with
  | shows b' =>
      rw [report, Sight.shows.injEq]
      split
      · next hmem =>
          refine ⟨Or.inl, fun h => ?_⟩
          rcases h with h | rfl
          · exact h
          · exact hmem
      · rw [List.mem_append, List.mem_singleton, eq_comm (a := b)]
  | leadsTo next => simp [report]
  | closed => simp [report]

theorem Sight.nodup_report (sight : Sight α β) {found : List β}
    (h : found.Nodup) : (sight.report found).Nodup := by
  cases sight with
  | shows b =>
      rw [report]
      split
      · exact h
      · next hnew =>
          rw [List.nodup_append]
          refine ⟨h, by simp, fun x hx y hy => ?_⟩
          rw [List.mem_singleton.1 hy]
          exact fun heq => hnew (heq ▸ hx)
  | leadsTo next => exact h
  | closed => exact h

variable [DecidableEq α]

theorem looking_cons (look : α → Sight α β) (n : Nat) (a : α)
    (rest seen : List α) (found : List β) :
    looking look (n + 1) (a :: rest) seen found =
      if a ∈ seen then looking look n rest seen found
      else looking look n ((look a).onward ++ rest) (a :: seen)
        ((look a).report found) := by
  rw [looking]
  cases look a <;> rfl

/-- What every sight has that was found before or can be seen from the stack,
every sight has that a walk reports. -/
theorem forall_mem_looking {look : α → Sight α β} {P : β → Prop} :
    ∀ (n : Nat) (stack seen : List α) (found : List β),
      (∀ b ∈ found, P b) → (∀ b, Sees look stack b → P b) →
      ∀ b ∈ looking look n stack seen found, P b := by
  intro n
  induction n with
  | zero =>
      intro stack seen found hfound _
      exact hfound
  | succ n ih =>
      intro stack seen found hfound hstack
      cases stack with
      | nil => exact hfound
      | cons a rest =>
          have hrest : ∀ b, Sees look rest b → P b := fun b hb =>
            hstack b (hb.mono fun x hx => List.mem_cons_of_mem a hx)
          rw [looking_cons]
          split
          · exact ih rest seen found hfound hrest
          · refine ih _ _ _ (fun b hb => ?_) (fun b hb => ?_)
            · rcases Sight.mem_report.1 hb with hb | hlook
              · exact hfound b hb
              · exact hstack b (.here List.mem_cons_self hlook)
            · cases hb with
              | here hc hlook =>
                  rcases List.mem_append.1 hc with hc | hc
                  · exact hstack b
                      (.through List.mem_cons_self (.here hc hlook))
                  · exact hrest b (.here hc hlook)
              | through hc h =>
                  rcases List.mem_append.1 hc with hc | hc
                  · exact hstack b (.through List.mem_cons_self (.through hc h))
                  · exact hrest b (.through hc h)

/-- A walk reports only what can be seen. -/
theorem sees_of_mem_lookThrough {look : α → Sight α β} {edges : Nat}
    {start : List α} {b : β} (h : b ∈ lookThrough look edges start) :
    Sees look start b :=
  forall_mem_looking _ _ _ _ (by simp) (fun _ hb => hb) b h

theorem mem_lookThrough {look : α → Sight α β} {edges : Nat} {start : List α}
    {b : β} (h : b ∈ lookThrough look edges start) :
    ∃ a, look a = .shows b :=
  (sees_of_mem_lookThrough h).exists_shows

theorem nodup_looking (look : α → Sight α β) :
    ∀ (n : Nat) (stack seen : List α) (found : List β), found.Nodup →
      (looking look n stack seen found).Nodup := by
  intro n
  induction n with
  | zero =>
      intro stack seen found hfound
      exact hfound
  | succ n ih =>
      intro stack seen found hfound
      cases stack with
      | nil => exact hfound
      | cons a rest =>
          rw [looking_cons]
          split
          · exact ih rest seen found hfound
          · exact ih _ _ _ ((look a).nodup_report hfound)

theorem nodup_lookThrough (look : α → Sight α β) (edges : Nat)
    (start : List α) : (lookThrough look edges start).Nodup :=
  nodup_looking look _ _ _ _ List.nodup_nil

/-! ## No node is finished twice -/

theorem nodup_finishing (next : α → List α) :
    ∀ (n : Nat) (jobs : List (Job α)) (seen finished : List α),
      (pending jobs ++ finished).Nodup →
      (∀ a ∈ pending jobs ++ finished, a ∈ seen) →
      (finishing next n jobs seen finished).Nodup := by
  intro n
  induction n with
  | zero =>
      intro jobs seen finished hnd _
      exact (List.nodup_append.1 hnd).2.1
  | succ n ih =>
      intro jobs seen finished hnd hseen
      cases jobs with
      | nil => exact hnd
      | cons job jobs =>
          cases job with
          | finish a =>
              -- The job hands its node over, so the list is only permuted.
              have hperm : (pending jobs ++ a :: finished).Perm
                  (pending (.finish a :: jobs) ++ finished) :=
                List.perm_middle
              rw [finishing]
              exact ih jobs seen (a :: finished) (hperm.nodup_iff.2 hnd)
                (fun x hx => hseen x (hperm.mem_iff.1 hx))
          | visit a =>
              rw [finishing]
              split
              · exact ih jobs seen finished hnd hseen
              · next hnew =>
                  have hpend : pending
                      ((fresh next (a :: seen) a).map .visit ++
                        .finish a :: jobs) =
                      a :: pending jobs := pending_visits _ _
                  refine ih _ (a :: seen) finished ?_ ?_
                  · rw [hpend]
                    exact List.nodup_cons.2
                      ⟨fun hmem => hnew (hseen a hmem), hnd⟩
                  · rw [hpend]
                    intro x hx
                    rcases List.mem_cons.1 hx with rfl | hx
                    · exact List.mem_cons_self
                    · exact List.mem_cons_of_mem a (hseen x hx)

theorem nodup_reversePostorder (next : α → List α) (edges : Nat) (start : α) :
    (reversePostorder next edges start).Nodup :=
  nodup_finishing next _ _ _ _ List.nodup_nil (by simp [pending])

/-! ## Only what can be reached -/

theorem forall_mem_finishing {next : α → List α} {P : α → Prop}
    (hnext : ∀ a, P a → ∀ c ∈ next a, P c) :
    ∀ (n : Nat) (jobs : List (Job α)) (seen finished : List α),
      (∀ a, .visit a ∈ jobs ∨ .finish a ∈ jobs → P a) →
      (∀ a ∈ finished, P a) →
      ∀ a ∈ finishing next n jobs seen finished, P a := by
  intro n
  induction n with
  | zero =>
      intro jobs seen finished _ hfinished
      exact hfinished
  | succ n ih =>
      intro jobs seen finished hjobs hfinished
      cases jobs with
      | nil => exact hfinished
      | cons job jobs =>
          have hrest : ∀ a, .visit a ∈ jobs ∨ .finish a ∈ jobs → P a :=
            fun a ha => hjobs a (ha.imp (List.mem_cons_of_mem _)
              (List.mem_cons_of_mem _))
          cases job with
          | finish a =>
              refine ih jobs seen (a :: finished) hrest fun x hx => ?_
              rcases List.mem_cons.1 hx with rfl | hx
              · exact hjobs x (Or.inr List.mem_cons_self)
              · exact hfinished x hx
          | visit a =>
              have ha : P a := hjobs a (Or.inl List.mem_cons_self)
              rw [finishing]
              split
              · exact ih jobs seen finished hrest hfinished
              · refine ih _ _ finished (fun x hx => ?_) hfinished
                rcases hx with hx | hx
                · rcases visit_mem_expand.1 hx with hx | hx
                  · exact hnext a ha x (mem_fresh.1 hx).1
                  · exact hrest x (Or.inl hx)
                · rcases finish_mem_expand.1 hx with rfl | hx
                  · exact ha
                  · exact hrest x (Or.inr hx)

/-- A search lists only nodes that have what the start has and each node hands
on to its neighbours. -/
theorem forall_mem_reversePostorder {next : α → List α} {edges : Nat}
    {start : α} {P : α → Prop} (hstart : P start)
    (hnext : ∀ a, P a → ∀ c ∈ next a, P c) :
    ∀ a ∈ reversePostorder next edges start, P a := by
  refine forall_mem_finishing hnext _ _ _ _ (fun a ha => ?_) (by simp)
  obtain rfl : a = start := by simpa using ha
  exact hstart

/-! ## Nothing is missed -/

/-- The number of edges out of the nodes of a list that are not seen yet. -/
def untouched (next : α → List α) (nodes seen : List α) : Nat :=
  ((nodes.filter fun a => a ∉ seen).flatMap next).length

theorem untouched_nil (next : α → List α) (nodes : List α) :
    untouched next nodes [] = (nodes.flatMap next).length := by
  have hall : (nodes.filter fun a => a ∉ []) = nodes :=
    List.filter_eq_self.2 fun a _ => by simp
  rw [untouched, hall]

theorem untouched_node (next : α → List α) (b : α) (nodes seen : List α) :
    untouched next (b :: nodes) seen =
      (if b ∈ seen then 0 else (next b).length) +
        untouched next nodes seen := by
  unfold untouched
  by_cases hb : b ∈ seen
  · simp [hb]
  · simp [hb]

theorem untouched_cons (next : α → List α) (nodes : List α) {seen : List α}
    {a : α} (hnew : a ∉ seen) (hmem : next a ≠ [] → a ∈ nodes) :
    untouched next nodes (a :: seen) + (next a).length ≤
      untouched next nodes seen := by
  have hcount : ∀ nodes : List α, untouched next nodes (a :: seen) +
      (if a ∈ nodes then (next a).length else 0) ≤
        untouched next nodes seen := by
    intro nodes
    induction nodes with
    | nil => simp [untouched]
    | cons b rest ih =>
        rw [untouched_node, untouched_node]
        by_cases hb : b = a
        · subst hb
          rw [if_pos List.mem_cons_self, if_pos List.mem_cons_self,
            if_neg hnew]
          split at ih <;> omega
        · have hseen : b ∈ a :: seen ↔ b ∈ seen := by simp [hb]
          have hrest : a ∈ b :: rest ↔ a ∈ rest := by simp [Ne.symm hb]
          simp only [hseen, hrest]
          omega
  have hle := hcount nodes
  by_cases hnil : next a = []
  · rw [hnil, List.length_nil] at hle ⊢
    split at hle <;> exact hle
  · rwa [if_pos (hmem hnil)] at hle

/-- A number counts at least the edges out of all nodes. -/
def Counted (next : α → List α) (edges : Nat) : Prop :=
  ∃ nodes : List α, (∀ a, next a ≠ [] → a ∈ nodes) ∧
    (nodes.flatMap next).length ≤ edges

theorem finishing_closed {next : α → List α} {nodes : List α}
    (hnodes : ∀ a, next a ≠ [] → a ∈ nodes) :
    ∀ (n : Nat) (jobs : List (Job α)) (seen finished : List α),
      weight jobs + 2 * untouched next nodes seen < n →
      Tracked next jobs seen finished →
      (∀ a, a ∈ seen ∨ .visit a ∈ jobs →
        a ∈ finishing next n jobs seen finished) ∧
      ∀ a ∈ finishing next n jobs seen finished, ∀ c ∈ next a,
        c ∈ finishing next n jobs seen finished := by
  intro n
  induction n with
  | zero =>
      intro jobs seen finished hn
      omega
  | succ n ih =>
      intro jobs seen finished hn htracked
      cases jobs with
      | nil =>
          have hseen : ∀ a, a ∈ seen ↔ a ∈ finished := by
            simpa using htracked.seen_iff
          refine ⟨fun a ha => (hseen a).1 (ha.resolve_right (by simp)),
            fun a ha c hc => ?_⟩
          have hc := htracked.ahead a ((hseen a).2 ha) c hc
          exact (hseen c).1 (hc.resolve_right (by simp))
      | cons job jobs =>
          cases job with
          | finish a =>
              rw [weight] at hn
              rw [finishing]
              obtain ⟨hreach, hclosed⟩ :=
                ih jobs seen (a :: finished) (by omega) htracked.finish
              refine ⟨fun x hx => hreach x (hx.imp_right fun hx => ?_), hclosed⟩
              exact (List.mem_cons.1 hx).resolve_left (by simp)
          | visit a =>
              rw [weight] at hn
              rw [finishing]
              split
              · next hseen =>
                  obtain ⟨hreach, hclosed⟩ := ih jobs seen finished (by omega)
                    (htracked.skip hseen)
                  refine ⟨fun x hx => hreach x ?_, hclosed⟩
                  rcases hx with hx | hx
                  · exact Or.inl hx
                  · rcases visit_mem_cons.1 hx with rfl | hx
                    · exact Or.inl hseen
                    · exact Or.inr hx
              · next hnew =>
                  -- the edges out of the node pay for its visits
                  have hpaid := untouched_cons next nodes hnew (hnodes a)
                  have hfresh := length_fresh_le next (a :: seen) a
                  have hroom : weight
                      ((fresh next (a :: seen) a).map .visit ++
                        .finish a :: jobs) +
                        2 * untouched next nodes (a :: seen) < n := by
                    rw [weight_visits, weight]
                    omega
                  obtain ⟨hreach, hclosed⟩ := ih _ (a :: seen) finished hroom
                    htracked.expand
                  refine ⟨fun x hx => hreach x ?_, hclosed⟩
                  rw [List.mem_cons, visit_mem_expand]
                  rcases hx with hx | hx
                  · exact Or.inl (Or.inr hx)
                  · rcases visit_mem_cons.1 hx with rfl | hx
                    · exact Or.inl (Or.inl rfl)
                    · exact Or.inr (Or.inr hx)

/-- A search whose bound counts all edges lists the start, and with a node all
its neighbours. -/
theorem reversePostorder_closed {next : α → List α} {edges : Nat} (start : α)
    (nodes : List α) (hnodes : ∀ a, next a ≠ [] → a ∈ nodes)
    (hedges : (nodes.flatMap next).length ≤ edges) :
    start ∈ reversePostorder next edges start ∧
      ∀ a ∈ reversePostorder next edges start, ∀ c ∈ next a,
        c ∈ reversePostorder next edges start := by
  obtain ⟨hreach, hclosed⟩ := finishing_closed hnodes (2 * edges + 3)
    [.visit start] [] [] (by rw [untouched_nil, weight, weight]; omega)
    ⟨by simp, by simp⟩
  exact ⟨hreach start (Or.inr List.mem_cons_self), hclosed⟩

theorem looking_closed {look : α → Sight α β} {nodes : List α}
    (hnodes : ∀ a, (look a).onward ≠ [] → a ∈ nodes) :
    ∀ (n : Nat) (stack seen : List α) (found : List β),
      stack.length + untouched (fun a => (look a).onward) nodes seen < n →
      Surveyed look seen stack found →
      ∃ all, (∀ a, a ∈ seen ∨ a ∈ stack → a ∈ all) ∧
        Surveyed look all [] (looking look n stack seen found) := by
  intro n
  induction n with
  | zero =>
      intro stack seen found hn
      omega
  | succ n ih =>
      intro stack seen found hn h
      cases stack with
      | nil => exact ⟨seen, fun a ha => ha.resolve_right (by simp), h⟩
      | cons a rest =>
          rw [List.length_cons] at hn
          rw [looking_cons]
          split
          · next hseen =>
              obtain ⟨all, hall, hdone⟩ :=
                ih rest seen found (by omega) (h.skip hseen)
              refine ⟨all, fun x hx => hall x ?_, hdone⟩
              rcases hx with hx | hx
              · exact Or.inl hx
              · rcases List.mem_cons.1 hx with rfl | hx
                · exact Or.inl hseen
                · exact Or.inr hx
          · next hnew =>
              have hpaid := untouched_cons (fun a => (look a).onward) nodes
                hnew (hnodes a)
              have hroom : ((look a).onward ++ rest).length +
                  untouched (fun a => (look a).onward) nodes
                    (a :: seen) < n := by
                rw [List.length_append]
                omega
              obtain ⟨all, hall, hdone⟩ := ih _ _ _ hroom (h.enter
                fun b => Sight.mem_report)
              refine ⟨all, fun x hx => hall x ?_, hdone⟩
              rw [List.mem_cons, List.mem_append, or_assoc]
              rcases hx with hx | hx
              · exact Or.inr (Or.inl hx)
              · exact (List.mem_cons.1 hx).imp_right fun hx =>
                  Or.inr (Or.inr hx)

/-- A walk whose bound counts all edges reports everything that can be seen. -/
theorem mem_lookThrough_of_sees {look : α → Sight α β} {edges : Nat}
    {start : List α} {b : β} (nodes : List α)
    (hnodes : ∀ a, (look a).onward ≠ [] → a ∈ nodes)
    (hedges : (nodes.flatMap fun a => (look a).onward).length ≤ edges)
    (h : Sees look start b) : b ∈ lookThrough look edges start := by
  obtain ⟨all, hall, hdone⟩ := looking_closed hnodes (start.length + edges + 1)
    start [] [] (by rw [untouched_nil]; omega) ⟨by simp, by simp⟩
  exact h.mem_of_surveyed hdone fun a ha => hall a (Or.inr ha)

end Dataflow.Search
