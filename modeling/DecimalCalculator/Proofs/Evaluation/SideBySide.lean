import DecimalCalculator.Proofs.Evaluation.Mirroring

/-!
# Two evaluations side by side

Two contexts may differ in what an evaluation does not look at. A relation between contexts is
paired when related contexts show the same tokens and the same depth, the variable that is read next
has the same value in both, a function that is called has the same body, and every step leads from
related contexts to related contexts. Then a whole evaluation comes to the same result from both,
value or failure, and the contexts that it leaves are related again (`Paired.calculate`): a paired
relation is mirrored, with no variable known and no two failures related but the same.

The two functions of the calculator come before those of the user, so a body that is stored under
one of their names is never looked at.
-/
namespace DecimalCalculator

namespace Eval

variable {α : Type}

/-- The same result in two outcomes whose contexts are related. -/
inductive Parallel (R : Context → Context → Prop) : Outcome α → Outcome α → Prop
  | ok {a : α} {c c' : Context} : R c c' → Parallel R (.ok a c) (.ok a c')
  | error {failure : Failure} {c c' : Context} : R c c' →
    Parallel R (.error failure c) (.error failure c')

/-- From related contexts the computation comes to the same result, and to related contexts. -/
def Respects (R : Context → Context → Prop) (m : Eval α) : Prop :=
  ∀ c c', R c c' → Parallel R (m c) (m c')

/-- Related contexts look alike to every step of an evaluation, and stay related. -/
structure Paired (settings : Settings) (R : Context → Context → Prop) : Prop where
  depth {c c' : Context} : R c c' → c'.depth = c.depth
  tokens {c c' : Context} : R c c' → c'.tokens = c.tokens
  read {c c' : Context} {name : String} {rest : List Token} : R c c' →
    c.tokens = .read name :: rest → c'.values.get? name = c.values.get? name
  function {c c' : Context} {name : String} : R c c' → IsUserName name →
    c'.functions.get? name = c.functions.get? name
  drop {c c' : Context} {rest : List Token} : R c c' → rest <:+ c.tokens →
    R {c with tokens := rest} {c' with tokens := rest}
  assign {c c' : Context} (name : String) (value : Decimal) : R c c' →
    R {c with values := c.values.insert name value}
      {c' with values := c'.values.insert name value}
  define {c c' : Context} {name : String} {body rest after : List Token} : R c c' →
    c.tokens = .assign name :: .symbol .parenOpen :: rest →
    capture settings.maxDepth 1 rest = (.ok body, after) →
    R ({c with tokens := after, functions := c.functions.insert name body}.record
        (.define name body.length))
      ({c' with tokens := after, functions := c'.functions.insert name body}.record
        (.define name body.length))
  enterGroup {c c' : Context} : R c c' → R c.enterGroup c'.enterGroup
  leaveGroup {c c' : Context} : R c c' → R c.leaveGroup c'.leaveGroup
  enterBody {c c' : Context} {name : String} {body : List Token} (actuals : List Decimal) :
    R c c' → IsUserName name → c.functions.get? name = some body →
    R (c.enterBody name body actuals) (c'.enterBody name body actuals)
  leaveBody {c c' d d' : Context} (count : Nat) : R c c' → R d d' →
    R (c.leaveBody count d) (c'.leaveBody count d')

section

variable {R : Context → Context → Prop}

theorem Parallel.result {o o' : Outcome α} (h : Parallel R o o') :
    Outcome.result o = Outcome.result o' := by
  cases h <;> rfl

theorem Parallel.context {o o' : Outcome α} (h : Parallel R o o') :
    R (Outcome.context o) (Outcome.context o') := by
  cases h <;> assumption

/-- Mirrored outcomes are parallel when only equal failures are related. -/
theorem Mirrored.parallel {o o' : Outcome α} (h : Mirrored Eq R o o') : Parallel R o o' := by
  cases h with
  | ok h => exact .ok h
  | error hfailure h =>
    subst hfailure
    exact .error h

end

section

variable {settings : Settings} {R : Context → Context → Prop} (hR : Paired settings R)
include hR

theorem Paired.define_of_open {c c' : Context} {name : String} {rest : List Token} (h : R c c')
    (htokens : c.tokens = .assign name :: .symbol .parenOpen :: rest) :
    Mirrored Eq R (Eval.define settings name {c with tokens := rest})
      (Eval.define settings name {c' with tokens := rest}) := by
  cases hcap : capture settings.maxDepth 1 rest with
  | mk captured after =>
    cases captured with
    | ok body =>
      rw [define_of_capture_ok name (c := {c with tokens := rest}) hcap,
        define_of_capture_ok name (c := {c' with tokens := rest}) hcap]
      have hdefined := hR.define h htokens hcap
      exact .ok hdefined
    | error error =>
      rw [define_of_capture_error name (c := {c with tokens := rest}) hcap,
        define_of_capture_error name (c := {c' with tokens := rest}) hcap]
      have hsuffix : after <:+ c.tokens := by
        rw [htokens]
        exact (suffix_of_capture hcap).trans (List.suffix_append [_, _] rest)
      have hdropped := hR.drop h hsuffix
      exact .error rfl hdropped

theorem Paired.call_user {c c' : Context} {name : String} {inner : Eval Decimal}
    (actuals : List Decimal) (hinner : Mirrors Eq R inner) (hname : IsUserName name)
    (h : R c c') :
    Mirrored Eq R (Eval.call settings inner name actuals c)
      (Eval.call settings inner name actuals c') := by
  obtain ⟨habs, hpow⟩ := hname
  have hfunction := hR.function h ⟨habs, hpow⟩
  cases hbody : c.functions.get? name with
  | none =>
    rw [call_unknown habs hpow hbody, call_unknown habs hpow (hfunction.trans hbody)]
    exact .error rfl h
  | some body =>
    rw [Eval.call_user habs hpow hbody, Eval.call_user habs hpow (hfunction.trans hbody),
      callBody_apply, callBody_apply]
    have hinside := hinner _ _ (hR.enterBody actuals h ⟨habs, hpow⟩ hbody)
    exact hinside.mapContext fun _ _ => hR.leaveBody actuals.length h

theorem Paired.mirroring : Mirroring settings (fun _ => none) Eq R where
  same _ := rfl
  leftover t := by rw [Token.resolve_none]
  depth := hR.depth
  tokens h := by rw [hR.tokens h, Token.map_resolve_none]
  read h htokens := by
    rw [Option.none_or]
    exact (hR.read h htokens).symm
  drop h hrest := by
    rw [Token.map_resolve_none]
    exact hR.drop h hrest
  assign value _ _ hd := hR.assign _ value hd
  define h htokens := by
    rw [Token.map_resolve_none]
    exact hR.define_of_open h htokens
  enterGroup := hR.enterGroup
  leaveGroup := hR.leaveGroup
  call actuals hinner _ _ hname hd := hR.call_user actuals hinner hname hd

/-- From related contexts an evaluation comes to the same result and to related contexts. -/
theorem Paired.calculate (bound : Nat) : Respects R (Eval.calculate settings bound) :=
  fun c c' h => (hR.mirroring.calculate bound c c' h).parallel

end

end Eval

end DecimalCalculator
