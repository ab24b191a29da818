import DecimalCalculator.Proofs.Evaluation.Nested

/-!
# Chains and right recursion

A chain evaluates all its operands first and applies the operators afterwards, from right to left.
It stands for a recursion: one operand, and behind an operator the right-hand side on the same
level. The two do the same things in the same order, whatever an operand changes and whatever an
operator makes of its values (`chain_is_right_recursion`).

With the same bound on the number of operators the agreement asks nothing of the operands
(`chainWithin_eq_rightRecursion`). A chain takes at most as many operators as there are tokens to
come, which is no limit where operands put no tokens back; for these it is the only evaluation that
follows the recursion (`eq_chain_iff`).

What fails first is the same as well. The operands are evaluated from left to right, and the first
of them that fails ends the chain before any operator is applied. Where all of them have values, the
operators are applied from the right, and the first of these that fails hides the ones before it.
-/
namespace DecimalCalculator

namespace Eval

variable {α : Type}

section

variable (operators : List Symbol) (apply : Symbol → α → α → Except Failure α) (operand : Eval α)

/-- A chain that takes at most as many operators as `bound` has tokens. -/
def chainWithin (bound : TokenStream) : Eval α := do
  let first ← operand
  let rest ← operands operators operand bound
  ofExcept (foldBack apply first rest)

/-- One operand, and if an operator follows, its right-hand side and the operator applied to the
two. -/
def withRightHand (rightHand : Eval α) : Eval α := do
  let first ← operand
  match ← acceptOneOf operators with
  | none => pure first
  | some op =>
    let second ← rightHand
    ofExcept (apply op first second)

/-- The recursion in which every right-hand side is on the same level again. It takes at most as
many operators as `bound` has tokens. -/
def rightRecursion (bound : TokenStream) : Eval α :=
  match bound with
  | [] => operand
  | _ :: bound => withRightHand operators apply operand (rightRecursion bound)

theorem chainWithin_nil : chainWithin operators apply operand [] = operand :=
  bind_pure operand

theorem chainWithin_cons (t : Token) (bound : TokenStream) :
    chainWithin operators apply operand (t :: bound) =
      withRightHand operators apply operand (chainWithin operators apply operand bound) := by
  funext c
  refine bind_congr_right fun first d _ => ?_
  rcases acceptOneOf_cases operators d with ⟨op, rest, -, -, hsome⟩ | ⟨-, hnone⟩
  · -- The second operand is the first one of the chain on the right.
    rw [operands, bind_assoc, bind_ok hsome, bind_ok hsome]
    simp only [chainWithin, bind_assoc, pure_bind]
    refine bind_congr_right fun second _ _ => bind_congr_right fun others e _ => ?_
    exact congrFun (ofExcept_bind (foldBack apply second others) (apply op first)) e
  · rw [bind_ok hnone, bind_ok (operands_of_none hnone)]
    rfl

/-- With the same bound on the operators a chain is the right recursion, for every operand. -/
theorem chainWithin_eq_rightRecursion (bound : TokenStream) :
    chainWithin operators apply operand bound = rightRecursion operators apply operand bound := by
  induction bound with
  | nil => exact chainWithin_nil operators apply operand
  | cons t bound ih => rw [chainWithin_cons, ih, rightRecursion]

theorem chain_eq_chainWithin (c : Context) :
    chain operators apply operand c =
      chainWithin operators apply operand (Outcome.context (operand c)).tokens c := by
  refine bind_congr_right fun first d hfirst => ?_
  rw [hfirst]
  exact bind_congr_left (bind_ok (get_apply d) _) _

end

variable {operators : List Symbol} {apply : Symbol → α → α → Except Failure α} {operand : Eval α}

/-! ## The recursion without a bound -/

/-- Where two right-hand sides agree on fewer tokens, what evaluates them does on these. -/
theorem withRightHand_congr (hm : MovesForward operand) {m m' : Eval α} {c : Context}
    (h : ∀ d, d.tokens.length < c.tokens.length → m d = m' d) :
    withRightHand operators apply operand m c = withRightHand operators apply operand m' c := by
  refine bind_congr_right fun first d hfirst => ?_
  rcases acceptOneOf_cases operators d with ⟨op, rest, htokens, -, hsome⟩ | ⟨-, hnone⟩
  · have hle : d.tokens.length ≤ c.tokens.length := hm hfirst
    rw [htokens, List.length_cons] at hle
    rw [bind_ok hsome, bind_ok hsome]
    exact bind_congr_left (h {d with tokens := rest} hle) _
  · rw [bind_ok hnone, bind_ok hnone]

/-- The chain is the only evaluation that follows the recursion: every right-hand side has fewer
tokens than the whole, by the operator at least. -/
theorem eq_chain_iff (hm : MovesForward operand) (m : Eval α) :
    m = withRightHand operators apply operand m ↔ m = chain operators apply operand := by
  have hchain : chain operators apply operand =
      withRightHand operators apply operand (chain operators apply operand) :=
    chain_unfold operators apply hm
  constructor
  · intro h
    funext c
    induction hlength : c.tokens.length using Nat.strongRecOn generalizing c with
    | ind length ih =>
      rw [h, hchain]
      exact withRightHand_congr hm fun d hd => ih _ (hlength ▸ hd) d rfl
  · rintro rfl
    exact hchain

/-! ## Failures of a chain -/

/-- Where the operands behind an operand are not all evaluated, one of them fails. -/
theorem operandAt_of_operands_error {bound : TokenStream} {c d e : Context} {a : α}
    {failure : Failure} (hfirst : operand c = .ok a d)
    (h : operands operators operand bound d = .error failure e) :
    ∃ d', OperandAt operators operand c d' ∧ operand d' = .error failure e := by
  induction bound generalizing c a d with
  | nil => cases h
  | cons t bound ih =>
    rcases acceptOneOf_cases operators d with ⟨op, rest, htokens, hop, hsome⟩ | ⟨-, hnone⟩
    · rw [operands_of_some hsome, bind_eq_error_iff] at h
      rcases h with h | ⟨b, d', hb, h⟩
      · exact ⟨_, .next hfirst htokens hop (.first _), h⟩
      · rw [bind_eq_error_iff] at h
        rcases h with h | ⟨_, _, -, h⟩
        · obtain ⟨d'', hat, hd''⟩ := ih hb h
          exact ⟨d'', .next hfirst htokens hop hat, hd''⟩
        · cases h
    · rw [operands_of_none hnone] at h
      cases h

/-- A chain fails with an operand, or with an operator once all operands have values. -/
theorem chain_eq_error_iff (hm : MovesForward operand) {c e : Context} {failure : Failure} :
    chain operators apply operand c = .error failure e ↔
      (∃ d, OperandAt operators operand c d ∧ operand d = .error failure e) ∨
      ∃ first d rest, operand c = .ok first d ∧ allOperands operators operand d = .ok rest e ∧
        foldBack apply first rest = .error failure := by
  constructor
  · intro h
    rw [chain, bind_eq_error_iff] at h
    rcases h with h | ⟨first, d, hfirst, h⟩
    · exact .inl ⟨c, .first c, h⟩
    · rw [bind_eq_error_iff] at h
      rcases h with h | ⟨rest, d', hrest, h⟩
      · exact .inl (operandAt_of_operands_error hfirst h)
      · obtain ⟨hfold, rfl⟩ := ofExcept_eq_error_iff.1 h
        exact .inr ⟨first, d, rest, hfirst, hrest, hfold⟩
  · rintro (⟨d, hat, hd⟩ | ⟨first, d, rest, hfirst, hrest, hfold⟩)
    · exact hat.error hm hd _
    · rw [chain, bind_ok hfirst, bind_ok hrest]
      exact ofExcept_eq_error_iff.2 ⟨hfold, rfl⟩

/-- The operators on the right are applied first: what they fail with is what is seen. -/
theorem foldBack_append_error {a : α} {back : List (Symbol × α)} {failure : Failure}
    (h : foldBack apply a back = .error failure) (first : α) (front : List (Symbol × α))
    (op : Symbol) : foldBack apply first (front ++ (op, a) :: back) = .error failure := by
  induction front generalizing first with
  | nil =>
    rw [List.nil_append, foldBack, h]
    rfl
  | cons pair front ih =>
    rw [List.cons_append, foldBack, ih]
    rfl

/-- A chain does what the right recursion does on its level, for every operand, whatever it changes,
and every application of operators. With the same bound on the operators they end alike in every
context, with the same value or failure, tokens and bindings. Where no operand puts tokens back, the
chain is the one evaluation that follows the recursion, and it fails with the first operand from the
left that does, before any operator is applied, or else with the first operator from the right. -/
theorem chain_is_right_recursion (operators : List Symbol)
    (apply : Symbol → α → α → Except Failure α) (operand : Eval α) :
    (∀ bound, chainWithin operators apply operand bound =
      rightRecursion operators apply operand bound) ∧
    (∀ c, chain operators apply operand c =
      rightRecursion operators apply operand (Outcome.context (operand c)).tokens c) ∧
    (MovesForward operand →
      (∀ m : Eval α, (m = do
        let first ← operand
        match ← acceptOneOf operators with
        | none => pure first
        | some op =>
          let second ← m
          ofExcept (apply op first second)) ↔ m = chain operators apply operand) ∧
      ∀ c e failure, chain operators apply operand c = .error failure e ↔
        (∃ d, OperandAt operators operand c d ∧ operand d = .error failure e) ∨
        ∃ first d rest, operand c = .ok first d ∧ allOperands operators operand d = .ok rest e ∧
          foldBack apply first rest = .error failure) ∧
    (∀ first front op a back failure, foldBack apply a back = .error failure →
      foldBack apply first (front ++ (op, a) :: back) = .error failure) := by
  refine ⟨chainWithin_eq_rightRecursion operators apply operand, fun c => ?_,
    fun hm => ⟨eq_chain_iff hm, fun c e failure => chain_eq_error_iff hm⟩,
    fun first front op a back failure h => foldBack_append_error h first front op⟩
  rw [chain_eq_chainWithin, chainWithin_eq_rightRecursion]

def keptNumber : Eval Decimal := do
  match ← next with
  | some (.number a) =>
    assign "last" a
    pure a
  | _ => fail .invalidSyntax

theorem keptNumber_movesForward : MovesForward keptNumber := by
  intro c a d h
  obtain ⟨depth, tokens, values, functions, trace⟩ := c
  cases tokens with
  | nil => cases h
  | cons t rest =>
    cases t with
    | number value =>
      cases h
      exact Nat.le_succ rest.length
    | symbol | assign | read | call => cases h

/-- In `1 / 0 / x` over numbers the missing number is what fails, with zero bound already, and not
the division by it. -/
theorem missing_number_before_zero_divisor :
    MovesForward keptNumber ∧
    chain [.div]
        (fun op => Arithmetic.apply .default Settings.default.precision .arithmetic (.symbol op))
        keptNumber (Context.start [.number Decimal.one, .symbol .div, .number Decimal.zero,
          .symbol .div, .read "x"] .empty .empty) =
      .error CalcError.invalidSyntax
        (Context.start [] ((Bindings.empty.insert "last" Decimal.one).insert "last" Decimal.zero)
          .empty) := by
  obtain ⟨-, -, hforward, -⟩ := chain_is_right_recursion [.div]
    (fun op => Arithmetic.apply .default Settings.default.precision .arithmetic (.symbol op))
    keptNumber
  refine ⟨keptNumber_movesForward, ((hforward keptNumber_movesForward).2 _ _ _).2 (.inl ?_)⟩
  exact ⟨_, .next rfl rfl (.head _) (.next rfl rfl (.head _) (.first _)), rfl⟩

end Eval

end DecimalCalculator
