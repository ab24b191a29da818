import DecimalCalculator.Proofs.Arithmetic.Finite
import DecimalCalculator.Proofs.Bindings
import DecimalCalculator.Proofs.Evaluation.Contracts

/-!
# Evaluations over finite numbers

If all numbers that an evaluation can meet are finite, those in its tokens, in the bodies of
functions and among the values of variables, then its value is finite, what it leaves is such a
context again, and if it fails, then in a way that can be foreseen (`calculate_keepsFinite`).

That is a contract (`Contract.finite`), and its laws are those of the arithmetic on finite numbers.
A level takes only operators of its family, so an operator is never applied in a family that it does
not belong to.
-/
namespace DecimalCalculator

def HasFiniteNumbers (ts : List Token) : Prop :=
  ∀ value, .number value ∈ ts → value.isFinite

theorem HasFiniteNumbers.suffix {ts us : List Token} (h : HasFiniteNumbers ts) (hu : us <:+ ts) :
    HasFiniteNumbers us :=
  fun value hvalue => h value (hu.subset hvalue)

/-- All numbers that an evaluation from the context can meet are finite. -/
structure Context.IsFinite (c : Context) : Prop where
  tokens : HasFiniteNumbers c.tokens
  values : c.values.All (·.isFinite)
  functions : c.functions.All HasFiniteNumbers

theorem Context.IsFinite.drop {c : Context} (h : c.IsFinite) {rest : List Token}
    (hrest : rest <:+ c.tokens) : {c with tokens := rest}.IsFinite :=
  ⟨h.tokens.suffix hrest, h.values, h.functions⟩

theorem Context.IsFinite.drop_cons {c : Context} (h : c.IsFinite) {t : Token} {rest : List Token}
    (htokens : c.tokens = t :: rest) : {c with tokens := rest}.IsFinite :=
  h.drop (htokens ▸ List.suffix_cons t rest)

namespace Eval

theorem finite_bindFrom {values : Bindings Decimal} (h : values.All (·.isFinite))
    {actuals : List Decimal} (hactuals : ∀ a ∈ actuals, a.isFinite) (number : Nat) :
    (bindFrom number values actuals).All (·.isFinite) := by
  induction actuals generalizing number values with
  | nil => exact h
  | cons a rest ih =>
    obtain ⟨ha, hrest⟩ := List.forall_mem_cons.1 hactuals
    exact ih (h.insert ha _) hrest (number + 1)

theorem finite_unbind {values : Bindings Decimal} (h : values.All (·.isFinite)) (count : Nat) :
    (unbind values count).All (·.isFinite) := by
  induction count with
  | zero => exact h
  | succ count ih => exact ih.erase _

/-- A level takes only operators of its family. -/
theorem isOfFamily_of_mem {level : Level} (hlevel : level ∈ levels) {op : Symbol}
    (hop : op ∈ level.operators) : Arithmetic.IsOfFamily level.family op := by
  revert level op
  simp [levels, Arithmetic.IsOfFamily]

end Eval

namespace Context.IsFinite

variable {settings : Settings} {c d : Context} {name : String} {rest body after : List Token}

theorem enterBody (h : c.IsFinite) (hbody : c.functions.get? name = some body)
    {actuals : List Decimal} (hactuals : ∀ a ∈ actuals, a.isFinite) :
    (c.enterBody name body actuals).IsFinite :=
  ⟨h.functions name body hbody, Eval.finite_bindFrom h.values hactuals 1, h.functions⟩

theorem leaveBody (h : c.IsFinite) (hd : d.IsFinite) (count : Nat) :
    (c.leaveBody count d).IsFinite :=
  ⟨h.tokens, Eval.finite_unbind hd.values count, hd.functions⟩

theorem define (h : c.IsFinite) (htokens : c.tokens = .assign name :: .symbol .parenOpen :: rest)
    (hcap : capture settings.maxDepth 1 rest = (.ok body, after)) :
    ({c with tokens := after, functions := c.functions.insert name body}.record
      (.define name body.length)).IsFinite := by
  obtain ⟨rfl, -⟩ := capture_eq_ok_iff.1 hcap
  have hrest : HasFiniteNumbers (body ++ .symbol .parenClose :: after) :=
    h.tokens.suffix (htokens ▸ List.suffix_append [_, _] _)
  have hbody : HasFiniteNumbers body := fun value hvalue =>
    hrest value (List.mem_append_left _ hvalue)
  exact ⟨hrest.suffix ((List.suffix_cons _ after).trans (List.suffix_append body _)), h.values,
    h.functions.insert hbody name⟩

end Context.IsFinite

/-- Among finite numbers an evaluation gives a finite number or fails in a way that can be foreseen,
and all numbers stay finite. -/
def Contract.finite (settings : Settings) : Contract settings where
  inside _ c := c.IsFinite
  left c := c.IsFinite
  value a := a.isFinite
  failure := settings.Foresees
  left_of_inside h := h
  left_drop h hrest := h.drop hrest
  left_leaveGroup h := ⟨h.tokens, h.values, h.functions⟩
  left_leaveBody count hc hd := hc.leaveBody hd count
  drop h htokens _ := h.drop (htokens ▸ List.suffix_append _ _)
  enterGroup h htokens := ⟨(h.drop_cons htokens).tokens, h.values, h.functions⟩
  leaveGroup h htokens := ⟨(h.drop_cons htokens).tokens, h.values, h.functions⟩
  enterBody _ _ _ _ hd hbody hactuals := hd.enterBody hbody hactuals
  leaveBody count hc hd := hc.leaveBody hd count
  assign name h ha := ⟨h.tokens, h.values.insert ha name, h.functions⟩
  define h htokens hcap := h.define htokens hcap
  number h htokens := h.tokens _ (htokens ▸ List.mem_cons_self)
  known h ha := h.values _ _ ha
  zero := rfl
  neg := Decimal.isFinite_neg
  abs := Decimal.isFinite_abs
  power := Arithmetic.admits_power
  complements := Arithmetic.admits_complements
  factorial := Arithmetic.admits_factorial
  apply hlevel hop := Arithmetic.admits_apply (Eval.isOfFamily_of_mem hlevel hop)
  ofLocal h := .calculation (by rintro rfl; exact h)
  uncaptured _ _ hcap := by
    refine .calculation ?_
    rintro rfl
    simpa using capture_error (congrArg Prod.fst hcap)
  unclosed _ _ := .calculation (by simp)
  tooDeep _ _ := .calculation (by simp)
  outOfBound := .calculation (by simp)

/-- The value has the property or the failure can be foreseen, and the numbers in the context that
is left are finite. -/
def Outcome.StaysFinite {α : Type} (settings : Settings) (P : α → Prop) (o : Outcome α) : Prop :=
  settings.Admits P (result o) ∧ (context o).IsFinite

namespace Eval

/-- In a context in which all numbers are finite, the computation gives a value with the property or
fails in a way that can be foreseen, and leaves such a context. -/
def KeepsFinite {α : Type} (settings : Settings) (P : α → Prop) (m : Eval α) : Prop :=
  ∀ c, c.IsFinite → Outcome.StaysFinite settings P (m c)

theorem calculate_keepsFinite (settings : Settings) (bound : Nat) :
    KeepsFinite settings (·.isFinite) (calculate settings bound) := by
  intro c hc
  have h := honours_calculate (.finite settings) bound 0 c hc
  generalize calculate settings bound c = o at h
  cases h with
  | ok ha hd => exact ⟨ha, hd⟩
  | error hfailure hd => exact ⟨hfailure, hd⟩

end Eval

end DecimalCalculator
