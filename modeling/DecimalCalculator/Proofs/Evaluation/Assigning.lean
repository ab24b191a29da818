import DecimalCalculator.Proofs.Evaluation.Atoms
import DecimalCalculator.Proofs.Evaluation.Consumption
import DecimalCalculator.Proofs.Evaluation.Termination

/-!
# Chains of assignments

An assignment evaluates everything to its right, as an expression of its own, and binds its name
when this has returned. In `x = y = r` the evaluation of `r` therefore comes first, up to the check
that nothing is left behind it; then `y` is bound to its value, and `x` to zero, which is the value
of an assignment. If `r` fails, no name of the chain is bound.

One link is one expression more that is open (`expression_assign`). As long as the limit on these is
not met, a link can be taken off a chain under the same limit (`calculate_assign`), and so can the
whole chain, by induction over its names (`calculate_assignments`).
-/
namespace DecimalCalculator

/-- The tokens of a chain of assignments, of which there is at least one, and the tokens behind. -/
def assignments (front : List String) (last : String) (rest : List Token) : List Token :=
  front.map .assign ++ .assign last :: rest

/-- The variables after a chain of assignments to a value: the last name is bound to the value, and
then the names before it are bound to zero, from right to left. -/
def bindChain (front : List String) (last : String) (value : Decimal) (values : Bindings Decimal) :
    Bindings Decimal :=
  front.foldr (fun name bound => bound.insert name Decimal.zero) (values.insert last value)

/-- A chain is no definition, whatever follows its first name. -/
theorem head?_assignments_ne (front : List String) (last : String) (rest : List Token)
    (s : Symbol) : (assignments front last rest).head? ≠ some (.symbol s) := by
  cases front <;> simp [assignments]

namespace Eval

variable {settings : Settings} {inner : Eval Decimal} {c : Context} {name : String}
  {rest : List Token}

/-- Binds a name to the value of what follows, and has the value zero. -/
def link (inner : Eval Decimal) (name : String) : Eval Decimal := do
  let value ← inner
  assign name value
  pure Decimal.zero

theorem link_of_ok {value : Decimal} {d : Context} (h : inner c = .ok value d) (name : String) :
    link inner name c = .ok Decimal.zero {d with values := d.values.insert name value} := by
  rw [link, bind_ok h]
  rfl

theorem link_of_error {failure : Failure} {d : Context} (h : inner c = .error failure d)
    (name : String) : link inner name c = .error failure d := by
  rw [link, bind_error h]

/-- An assignment fails as what follows it does. -/
theorem result_link_eq_error_iff {failure : Failure} :
    Outcome.result (link inner name c) = .error failure ↔
      Outcome.result (inner c) = .error failure := by
  cases h : inner c with
  | ok value d => simp [link_of_ok h]
  | error other d => simp [link_of_error h]

/-- An expression that begins with an assignment is nothing but this assignment. -/
theorem expression_assign (hinner : ∀ c a d, inner c = .ok a d → d.AtEnd)
    (hdepth : c.depth < settings.maxDepth) (hrest : rest.head? ≠ some (.symbol .parenOpen)) :
    expression settings inner {c with tokens := .assign name :: rest} =
      link inner name {c with tokens := rest} := by
  have hatom : atom settings inner {c with tokens := .assign name :: rest} =
      link inner name {c with tokens := rest} :=
    atom_assign rfl hrest
  rw [← hatom]
  refine expression_eq_atom (by simp) (by simp) hdepth fun a d h => ?_
  rw [hatom] at h
  cases hvalue : inner {c with tokens := rest} with
  | ok value e =>
    rw [link_of_ok hvalue] at h
    cases h
    exact hinner _ value e hvalue
  | error failure e =>
    rw [link_of_error hvalue] at h
    cases h

theorem calculate_assign {bound : Nat} (hdepth : c.depth < settings.maxDepth)
    (hrest : rest.head? ≠ some (.symbol .parenOpen))
    (h : Outcome.result (calculate settings bound {c with tokens := .assign name :: rest}) ≠
      .error outOfBound) :
    calculate settings bound {c with tokens := .assign name :: rest} =
      link (calculate settings bound) name {c with tokens := rest} := by
  cases bound with
  | zero => exact absurd rfl h
  | succ bound =>
    have hlink : calculate settings (bound + 1) {c with tokens := .assign name :: rest} =
        link (calculate settings bound) name {c with tokens := rest} :=
      expression_assign (fun _ _ _ => calculate_atEnd) hdepth hrest
    rw [hlink, ne_eq, result_link_eq_error_iff] at h
    rw [hlink]
    exact bind_congr_left (calculate_eq_of_le (Nat.le_succ bound) h).symm _

def chained (front : List String) (last : String) : Outcome Decimal → Outcome Decimal
  | .ok value d => .ok Decimal.zero {d with values := bindChain front last value d.values}
  | .error failure d => .error failure d

theorem link_of_chained {front : List String} {last : String} {o : Outcome Decimal}
    (h : inner c = chained front last o) (name : String) :
    link inner name c = chained (name :: front) last o := by
  cases o with
  | ok value d => exact link_of_ok h name
  | error failure d => exact link_of_error h name

theorem calculate_assignments {bound : Nat} (front : List String) (last : String)
    (hdepth : c.depth < settings.maxDepth) (hrest : rest.head? ≠ some (.symbol .parenOpen))
    (h : Outcome.result (calculate settings bound
      {c with tokens := assignments front last rest}) ≠ .error outOfBound) :
    calculate settings bound {c with tokens := assignments front last rest} =
      chained front last (calculate settings bound {c with tokens := rest}) := by
  induction front with
  | nil =>
    have hlast : calculate settings bound {c with tokens := .assign last :: rest} =
        link (calculate settings bound) last {c with tokens := rest} :=
      calculate_assign hdepth hrest h
    rw [show assignments [] last rest = .assign last :: rest from rfl, hlast]
    cases hvalue : calculate settings bound {c with tokens := rest} with
    | ok value d => exact link_of_ok hvalue last
    | error failure d => exact link_of_error hvalue last
  | cons name front ih =>
    rw [show assignments (name :: front) last rest =
      .assign name :: assignments front last rest from rfl] at h ⊢
    have hfirst := calculate_assign hdepth (head?_assignments_ne front last rest _) h
    -- The chain behind the first name has met the limit only if the whole chain has.
    rw [hfirst, ne_eq, result_link_eq_error_iff] at h
    rw [hfirst]
    exact link_of_chained (ih h) name

end Eval

open Eval

/-- Assignments one after another are made together or not at all. Unless the limit on open
expressions is met, a chain of assignments is evaluated with success exactly if what follows it is,
from the same bindings. Then the value is zero, the functions are those that this has left, and the
variables those that it has left with the last name bound to its value and the names before it to
zero, from right to left. If what follows fails, also for a token behind it, then the chain fails in
the same way and leaves the same, with no name bound. -/
theorem assignments_all_or_nothing (settings : Settings) (front : List String) (last : String)
    {rest : List Token} (hrest : rest.head? ≠ some (.symbol .parenOpen))
    (values : Bindings Decimal) (functions : Bindings (List Token))
    (hlimit : Outcome.result (evaluate settings (assignments front last rest) values functions) ≠
      .error outOfBound) :
    ((∃ value d, evaluate settings (assignments front last rest) values functions = .ok value d) ↔
      ∃ value d, evaluate settings rest values functions = .ok value d) ∧
    (∀ value d, evaluate settings rest values functions = .ok value d →
      evaluate settings (assignments front last rest) values functions =
        .ok Decimal.zero {d with values := bindChain front last value d.values}) ∧
    ∀ failure d, evaluate settings rest values functions = .error failure d →
      evaluate settings (assignments front last rest) values functions = .error failure d := by
  have hdepth : (Context.start rest values functions).depth < settings.maxDepth :=
    Int.ofNat_lt.2 settings.maxDepth_pos
  have hchain : evaluate settings (assignments front last rest) values functions =
      chained front last (evaluate settings rest values functions) :=
    calculate_assignments front last hdepth hrest hlimit
  rw [hchain]
  cases evaluate settings rest values functions with
  | ok value d =>
    refine ⟨⟨fun _ => ⟨value, d, rfl⟩, fun _ => ⟨_, _, rfl⟩⟩, ?_, ?_⟩
    · rintro _ _ ⟨⟩
      rfl
    · rintro _ _ ⟨⟩
  | error failure d =>
    refine ⟨⟨?_, ?_⟩, ?_, ?_⟩
    · rintro ⟨_, _, ⟨⟩⟩
    · rintro ⟨_, _, ⟨⟩⟩
    · rintro _ _ ⟨⟩
    · rintro _ _ ⟨⟩
      rfl

/-- With `x = y = 2` the variable `y` is two and `x` is zero. With `x = y = 2)` neither is bound,
since the number is refused for the parenthesis behind it. -/
theorem assignments_of_two :
    evaluate Settings.default (assignments ["x"] "y" [.number (.finite false 2 0)]) .empty .empty =
      .ok Decimal.zero
        ⟨0, [], (Bindings.empty.insert "y" (.finite false 2 0)).insert "x" Decimal.zero, .empty, []⟩ ∧
    evaluate Settings.default
        (assignments ["x"] "y" [.number (.finite false 2 0), .symbol .parenClose]) .empty .empty =
      .error (CalcError.expectedEnd (.symbol .parenClose)) ⟨0, [], .empty, .empty, []⟩ := by
  have hstart (rest : List Token) : (Token.number (.finite false 2 0) :: rest).head? ≠
      some (.symbol .parenOpen) := by
    simp
  have hsuccess := assignments_all_or_nothing Settings.default ["x"] "y" (hstart []) .empty .empty
    (by decide +kernel)
  have hfailure := assignments_all_or_nothing Settings.default ["x"] "y"
    (hstart [.symbol .parenClose]) .empty .empty (by decide +kernel)
  exact ⟨hsuccess.2.1 _ _ rfl, hfailure.2.2 _ _ rfl⟩

end DecimalCalculator
