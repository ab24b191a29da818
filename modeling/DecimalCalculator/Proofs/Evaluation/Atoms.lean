import DecimalCalculator.Proofs.Evaluation.Progress
import DecimalCalculator.Proofs.Syntax.Expr

/-!
# Expressions of one atom

Nine levels lie between an expression and its first atom, and each of them looks at the token behind
what it has evaluated. If no sign stands before the atom and the expression is over behind it, then
none of the levels does anything: the expression ends as its atom does, with the same value or the
same failure, in the same context.
-/
namespace DecimalCalculator

theorem Context.AtEnd.head?_ne_symbol {d : Context} (h : d.AtEnd) {s : Symbol} (hs : 1 ≤ s.level) :
    d.tokens.head? ≠ some (.symbol s) := by
  rintro hhead
  rcases h with h | ⟨-, h | h⟩
  · rw [h] at hhead
    cases hhead
  · rw [h] at hhead
    cases hhead
    exact absurd hs (by decide)
  · rw [h] at hhead
    cases hhead
    exact absurd hs (by decide)

namespace Eval

theorem level_pos_of_mem_levels :
    ∀ level ∈ levels, ∀ op ∈ level.operators, 1 ≤ op.level := by
  decide

variable {settings : Settings} {inner : Eval Decimal} {c d : Context} {a : Decimal}
  {failure : Failure}

section

variable (hsub : c.tokens.head? ≠ some (.symbol .sub)) (hnot : c.tokens.head? ≠ some (.symbol .not))
include hsub hnot

theorem complemented_eq_atom : complemented settings inner c = atom settings inner c := by
  rw [complemented_of_ne hnot, primary_of_ne hsub]

/-- An atom behind which the expression is over is all that the levels find. -/
theorem cascade_of_atom (h : atom settings inner c = .ok a d) (hd : d.AtEnd) {tiers : List Level}
    (htiers : tiers ⊆ levels) : cascade settings inner tiers c = .ok a d := by
  induction tiers with
  | nil =>
    have hfirst : complemented settings inner c = .ok a d :=
      (complemented_eq_atom hsub hnot).trans h
    have hsign : d.tokens.head? ≠ some (.symbol .factorial) := hd.head?_ne_symbol (by decide)
    rw [cascade, operand, bind_ok hfirst, bind_ok (accept_of_ne hsign)]
    rfl
  | cons level rest ih =>
    obtain ⟨hlevel, hrest⟩ := List.cons_subset.1 htiers
    have hnone : ∀ op more, d.tokens = .symbol op :: more → op ∉ level.operators := by
      intro op more hop hmem
      exact hd.head?_ne_symbol (level_pos_of_mem_levels level hlevel op hmem) (by rw [hop]; rfl)
    have hothers : allOperands level.operators (cascade settings inner rest) d = .ok [] d :=
      operands_of_none (acceptOneOf_of_notMem hnone)
    rw [cascade, chain, bind_ok (ih hrest), bind_ok hothers]
    rfl

theorem cascade_of_atom_error (h : atom settings inner c = .error failure d)
    (tiers : List Level) : cascade settings inner tiers c = .error failure d := by
  induction tiers with
  | nil =>
    have hfirst : complemented settings inner c = .error failure d :=
      (complemented_eq_atom hsub hnot).trans h
    rw [cascade, operand, bind_error hfirst]
  | cons level rest ih => rw [cascade, chain, bind_error ih]

variable (hdepth : c.depth < settings.maxDepth)
include hdepth

theorem expression_of_atom (h : atom settings inner c = .ok a d) (hd : d.AtEnd) :
    expression settings inner c = .ok a d := by
  rw [expression_of_lt hdepth,
    bind_ok (cascade_of_atom hsub hnot h hd (List.Subset.refl levels)),
    bind_ok (finish_of_atEnd hd)]
  rfl

theorem expression_of_atom_error (h : atom settings inner c = .error failure d) :
    expression settings inner c = .error failure d := by
  rw [expression_of_lt hdepth, bind_error (cascade_of_atom_error hsub hnot h levels)]

/-- An expression is its first atom if it is over behind it whenever the atom has a value. -/
theorem expression_eq_atom (hend : ∀ a d, atom settings inner c = .ok a d → d.AtEnd) :
    expression settings inner c = atom settings inner c := by
  cases h : atom settings inner c with
  | ok a d => exact expression_of_atom hsub hnot hdepth h (hend a d h)
  | error failure d => exact expression_of_atom_error hsub hnot hdepth h

end

/-- An evaluation is that of one expression, in which more may be nested. -/
theorem evaluate_eq_expression (settings : Settings) (tokens : List Token)
    (values : Bindings Decimal) (functions : Bindings (List Token)) :
    ∃ limit, evaluate settings tokens values functions =
      expression settings (calculate settings limit) (Context.start tokens values functions) := by
  obtain ⟨limit, hlimit⟩ := Nat.exists_eq_succ_of_ne_zero
    (Nat.ne_zero_of_lt settings.maxDepth_lt_expressionLimit)
  refine ⟨limit, ?_⟩
  rw [evaluate, hlimit]
  rfl

end Eval

end DecimalCalculator
