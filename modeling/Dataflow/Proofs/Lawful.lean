import Dataflow.Analysis.Faintness
import Dataflow.Analysis.Liveness
import Dataflow.Analysis.NonNull
import Dataflow.Analysis.ReachingDefinitions
import Dataflow.Proofs.Descent

/-!
# The analyses keep their promise

The solver's guarantees rest on `Problem.Lawful`, and this file shows that each
of the four analyses is lawful on every graph. For each, one lemma says which
elements the transfer of a quad lets through, in terms of membership alone;
monotonicity and closure are read off it.

All four transfers have one shape: of what arrives they let some elements
through, and they add others. In three of them neither part depends on what
arrives. Faintness is the exception: whether the operands of a move are added
depends on whether its result is live. It is monotone because that condition
is, a result that is live in a smaller set being live in a larger one.
-/

namespace Dataflow

/-- A problem is lawful when its transfers let a fixed part of what arrives
through and add elements of the domain, more of them when more arrives. -/
theorem Problem.lawful_of_mem {α : Type} [Element α] {p : Problem α}
    {g : Graph} {kept : Quad → α → Prop} {added : Quad → OrdSet α → α → Prop}
    (hmem : ∀ q s a, a ∈ p.transfer q s ↔ (a ∈ s ∧ kept q a) ∨ added q s a)
    (hmono : ∀ q s t, s ⊆ t → ∀ a, added q s a → added q t a)
    (hadded : ∀ q ∈ g.quads, ∀ s a, added q s a → a ∈ p.domain)
    (hsource : p.atSource ⊆ p.domain) : p.Lawful g := by
  refine ⟨fun q _ s t _ hst a ha => ?_, fun q hq s hs a ha => ?_, hsource⟩
  · rcases (hmem q s a).1 ha with ⟨has, hkept⟩ | hadd
    · exact (hmem q t a).2 (Or.inl ⟨hst a has, hkept⟩)
    · exact (hmem q t a).2 (Or.inr (hmono q s t hst a hadd))
  · rcases (hmem q s a).1 ha with ⟨has, -⟩ | hadd
    · exact hs a has
    · exact hadded q hq s a hadd

/-! ## The registers of a graph -/

namespace Graph

theorem mem_registers {g : Graph} {r : Register} :
    r ∈ g.registers ↔
      r ∈ g.params ∨ ∃ q ∈ g.quads, r ∈ q.defs ∨ r ∈ q.uses := by
  have hfold : ∀ (quads : List Quad) (s : OrdSet Register),
      r ∈ quads.foldl (fun s q => (s.insertAll q.defs).insertAll q.uses) s ↔
        r ∈ s ∨ ∃ q ∈ quads, r ∈ q.defs ∨ r ∈ q.uses := by
    intro quads
    induction quads with
    | nil => simp
    | cons q rest ih =>
        intro s
        rw [List.foldl_cons, ih]
        simp only [OrdSet.mem_insertAll, List.exists_mem_cons_iff, or_assoc]
  unfold registers
  rw [hfold, OrdSet.mem_ofList]

theorem mem_registers_of_use {g : Graph} {q : Quad} (hq : q ∈ g.quads)
    {r : Register} (hr : r ∈ q.uses) : r ∈ g.registers :=
  mem_registers.2 (Or.inr ⟨q, hq, Or.inr hr⟩)

end Graph

/-- A quad defines at most one register. -/
theorem Quad.eq_of_mem_defs {q : Quad} {r r' : Register} (hr : r ∈ q.defs)
    (hr' : r' ∈ q.defs) : r = r' := by
  unfold Quad.defs at hr hr'
  split at hr <;> simp_all

/-- A null check uses the register it checks. -/
theorem Quad.mem_uses_of_checked? {q : Quad} {r : Register}
    (h : q.checked? = some r) : r ∈ q.uses := by
  unfold Quad.checked? at h
  split at h
  · next guard checked hinstr =>
      cases h
      simp [Quad.uses, hinstr, Instr.operands, Operand.register?]
  · cases h

/-- A comparison with null uses the register it compares. -/
theorem Quad.mem_uses_of_nullTest {q : Quad} {r : Register} {cond : Condition}
    (h : q.nullTest? = some (r, cond)) : r ∈ q.uses := by
  obtain ⟨target, hinstr | hinstr⟩ := Quad.nullTest?_eq_some_iff.1 h
  · simp [Quad.uses, hinstr, Instr.operands, Operand.register?]
  · simp [Quad.uses, hinstr, Instr.operands, Operand.register?]

/-! ## Liveness -/

namespace Liveness

theorem mem_transfer {q : Quad} {s : OrdSet Register} {r : Register} :
    r ∈ transfer q s ↔ (r ∈ s ∧ r ∉ q.defs) ∨ r ∈ q.uses := by
  unfold transfer
  rw [OrdSet.mem_insertAll, OrdSet.mem_eraseAll]

theorem lawful (g : Graph) : (problem g).Lawful g := by
  refine Problem.lawful_of_mem (fun q s r => mem_transfer)
    (fun q s t hst r huse => huse) (fun q hq s r huse => ?_)
    (OrdSet.empty_subset _)
  exact Graph.mem_registers_of_use hq huse

end Liveness

/-! ## Faintness -/

namespace Faintness

theorem mem_transfer {q : Quad} {live : OrdSet Register} {r : Register} :
    r ∈ transfer q live ↔
      (r ∈ live ∧ r ∉ q.defs) ∨ (matters q live ∧ r ∈ q.uses) := by
  unfold transfer
  by_cases hm : matters q live = true
  · simp [hm]
  · simp [hm]

theorem matters_mono {q : Quad} {s t : OrdSet Register} (h : s ⊆ t)
    (hm : matters q s) : matters q t := by
  have hany : q.defs.any (· ∈ s) = true → q.defs.any (· ∈ t) = true := by
    intro hs
    obtain ⟨r, hr, hmem⟩ := List.any_eq_true.1 hs
    refine List.any_eq_true.2 ⟨r, hr, ?_⟩
    exact decide_eq_true (h r (of_decide_eq_true hmem))
  unfold matters at hm ⊢
  split at hm
  · exact hany hm
  · exact hany hm
  · rfl

theorem lawful (g : Graph) : (problem g).Lawful g := by
  refine Problem.lawful_of_mem (fun q s r => mem_transfer)
    (fun q s t hst r hadd => ⟨matters_mono hst hadd.1, hadd.2⟩)
    (fun q hq s r hadd => ?_) (OrdSet.empty_subset _)
  exact Graph.mem_registers_of_use hq hadd.2

end Faintness

/-! ## Registers known not to be null -/

namespace NonNull

theorem mem_transfer {q : Quad} {s : OrdSet Register} {r : Register} :
    r ∈ transfer q s ↔ (r ∈ s ∧ r ∉ q.defs) ∨ q.checked? = some r := by
  unfold transfer surviving
  cases hc : q.checked? with
  | none => simp
  | some checked =>
      rw [OrdSet.mem_insert, OrdSet.mem_eraseAll, Option.some.injEq,
        eq_comm (a := r), or_comm]

theorem lawful (g : Graph) : (problem g).Lawful g := by
  refine Problem.lawful_of_mem (fun q s r => mem_transfer)
    (fun q s t hst r hcheck => hcheck) (fun q hq s r hcheck => ?_)
    (fun r hr => (OrdSet.mem_eraseAll.1 hr).1)
  exact Graph.mem_registers_of_use hq (Quad.mem_uses_of_checked? hcheck)

end NonNull

/-! ## Reaching definitions -/

namespace ReachingDefinitions

theorem mem_domain {g : Graph} {d : QuadId} :
    d ∈ domain g ↔ ∃ q ∈ g.quads, q.defs ≠ [] ∧ q.id = d := by
  unfold domain
  simp [and_assoc]

theorem mem_transfer {m : Definitions} {q : Quad} {s : OrdSet QuadId}
    {d : QuadId} :
    d ∈ transfer m q s ↔
      (d ∈ s ∧ ∀ r ∈ q.defs, d ∉ definitionsOf m r) ∨
        (q.defs ≠ [] ∧ d = q.id) := by
  have hkill : ∀ (l : List Register) (s : OrdSet QuadId),
      d ∈ l.foldl (fun s r => s.diff (definitionsOf m r)) s ↔
        d ∈ s ∧ ∀ r ∈ l, d ∉ definitionsOf m r := by
    intro l
    induction l with
    | nil => simp
    | cons r rest ih =>
        intro s
        rw [List.foldl_cons, ih, OrdSet.mem_diff, List.forall_mem_cons,
          and_assoc]
  unfold transfer
  by_cases hdefs : q.defs = []
  · simp [hdefs]
  · have hempty : q.defs.isEmpty = false := by simpa using hdefs
    simp only [hempty, Bool.false_eq_true, if_false, OrdSet.mem_insert, hkill]
    rw [or_comm, and_iff_right hdefs]

theorem lawful (g : Graph) : (problem g).Lawful g := by
  refine Problem.lawful_of_mem (fun q s d => mem_transfer)
    (fun q s t hst d hgen => hgen) (fun q hq s d hgen => ?_)
    (OrdSet.empty_subset _)
  exact mem_domain.2 ⟨q, hq, hgen.1, hgen.2.symm⟩

end ReachingDefinitions

end Dataflow
