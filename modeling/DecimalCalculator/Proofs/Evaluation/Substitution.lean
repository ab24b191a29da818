import DecimalCalculator.Proofs.Evaluation.Mirroring
import DecimalCalculator.Proofs.Session.Positional

/-!
# Calls as substitutions

A call binds its arguments to positional names, evaluates the body and unbinds them. Where the body
only reads these names, the same is had by writing the arguments into it: every read of a positional
name is replaced by the number that it is bound to, and nothing is bound.

The two evaluations are related step by step. The context of the call has the arguments bound, the
other has not, and beside that their variables agree; the tokens of the other are those of the call
with the arguments written into them (`Substituted`). The body may assign to all other names and may
fail anywhere, also at a token which the other shows as a number, so two failures are related when
they are of one kind.
-/
namespace DecimalCalculator

namespace Eval

/-- The argument that is bound to a name, where the first of them has the given number. -/
def argumentFrom (number : Nat) : List Decimal → String → Option Decimal
  | [], _ => none
  | a :: rest, name =>
    if name = positionalName number then some a else argumentFrom (number + 1) rest name

/-- A token sequence with the arguments of a call in the places of their positional names. -/
def substitute (actuals : List Decimal) (ts : List Token) : List Token :=
  ts.map (Token.resolve (argumentFrom 1 actuals))

/-- The sequence calls no function of the user, defines none, and assigns to none of the first
`count` positional names. -/
structure OnlyReads (count : Nat) (ts : List Token) : Prop where
  calls : ∀ name, .call name ∈ ts → name = "abs" ∨ name = "pow"
  defines : ∀ name, ¬[.assign name, .symbol .parenOpen] <:+: ts
  assigns : ∀ k, 0 < k → k ≤ count → .assign (positionalName k) ∉ ts

theorem OnlyReads.suffix {count : Nat} {ts us : List Token} (h : OnlyReads count ts)
    (hsuffix : us <:+ ts) : OnlyReads count us := by
  constructor
  · intro name hname
    exact h.calls name (hsuffix.subset hname)
  · intro name hname
    exact h.defines name (hname.trans hsuffix.isInfix)
  · intro k hpos hle hname
    exact h.assigns k hpos hle (hsuffix.subset hname)

/-! ## Positional names -/

theorem positionalName_inj {j k : Nat} (h : positionalName j = positionalName k) : j = k := by
  have hdigits := (List.cons.inj (String.ofList_inj.1 h)).2
  rw [← Text.digitsValue_digits j, hdigits, Text.digitsValue_digits]

theorem positionalName_ne {name : String} (h : name.toList.head? ≠ some '$') {k : Nat} :
    positionalName k ≠ name := by
  rintro rfl
  simp [positionalName] at h

/-- A name is that of an argument exactly if it is the positional name with its number. -/
theorem argumentFrom_eq_some_iff {number : Nat} {actuals : List Decimal} {name : String}
    {value : Decimal} :
    argumentFrom number actuals name = some value ↔
      ∃ k, name = positionalName (number + k) ∧ actuals[k]? = some value := by
  induction actuals generalizing number with
  | nil => simp [argumentFrom]
  | cons a rest ih =>
    unfold argumentFrom
    split
    · next hname =>
      constructor
      · intro h
        exact ⟨0, hname, by simpa using h⟩
      · intro h
        obtain ⟨k, hk, hvalue⟩ := h
        have hzero := positionalName_inj (hname.symm.trans hk)
        obtain rfl : k = 0 := by omega
        simpa using hvalue
    · next hname =>
      rw [ih]
      constructor
      · intro h
        obtain ⟨k, hk, hvalue⟩ := h
        exact ⟨k + 1, by rw [hk, Nat.add_right_comm]; rfl, by simpa using hvalue⟩
      · intro h
        obtain ⟨k, hk, hvalue⟩ := h
        cases k with
        | zero => exact absurd hk hname
        | succ k => exact ⟨k, by rw [hk, Nat.add_right_comm]; rfl, by simpa using hvalue⟩

theorem exists_of_argumentFrom {actuals : List Decimal} {name : String} {value : Decimal}
    (h : argumentFrom 1 actuals name = some value) :
    ∃ k, 0 < k ∧ k ≤ actuals.length ∧ name = positionalName k := by
  obtain ⟨k, hname, hvalue⟩ := argumentFrom_eq_some_iff.1 h
  obtain ⟨hlt, -⟩ := List.getElem?_eq_some_iff.1 hvalue
  exact ⟨1 + k, by omega, by omega, hname⟩

theorem get?_bindFrom (number : Nat) (values : Bindings Decimal) (actuals : List Decimal)
    (name : String) :
    (bindFrom number values actuals).get? name =
      (argumentFrom number actuals name).or (values.get? name) := by
  induction actuals generalizing number values with
  | nil => rfl
  | cons a rest ih =>
    rw [bindFrom, ih, Bindings.get?_insert, argumentFrom]
    by_cases hname : name = positionalName number
    · have hnone : argumentFrom (number + 1) rest name = none := by
        rw [Option.eq_none_iff_forall_ne_some]
        intro value hvalue
        obtain ⟨k, hk, -⟩ := argumentFrom_eq_some_iff.1 hvalue
        have hsame := positionalName_inj (hname.symm.trans hk)
        omega
      rw [if_pos hname, if_pos hname, hnone, Option.none_or, Option.some_or]
    · rw [if_neg hname, if_neg hname]

/-! ## The two evaluations -/

/-- The first context has the arguments bound where the second shows them in its tokens. -/
structure Substituted (actuals : List Decimal) (c c' : Context) : Prop where
  depth : c'.depth = c.depth
  tokens : c'.tokens = substitute actuals c.tokens
  onlyReads : OnlyReads actuals.length c.tokens
  values : ∀ name,
    c.values.get? name = (argumentFrom 1 actuals name).or (c'.values.get? name)
  unbound : ∀ k, 0 < k → k ≤ actuals.length → c'.values.get? (positionalName k) = none
  functions : c'.functions = c.functions

def SameKind (failure failure' : Failure) : Prop :=
  failure'.kind = failure.kind

theorem mirroring_substituted (settings : Settings) (actuals : List Decimal) :
    Mirroring settings (argumentFrom 1 actuals) SameKind (Substituted actuals) where
  same _ := rfl
  leftover _ := rfl
  depth h := h.depth
  tokens h := h.tokens
  read h _ := h.values _
  drop h hrest := {h with tokens := rfl, onlyReads := h.onlyReads.suffix hrest}
  assign := by
    intro c c' d d' name rest value h htokens hd
    have hmem : Token.assign name ∈ c.tokens := htokens ▸ List.mem_cons_self
    have hne : ∀ k, 0 < k → k ≤ actuals.length → positionalName k ≠ name := by
      intro k hpos hle heq
      exact h.onlyReads.assigns k hpos hle (heq ▸ hmem)
    refine {hd with values := fun other => ?_, unbound := fun k hpos hle => ?_}
    · change (d.values.insert name value).get? other = (argumentFrom 1 actuals other).or
        ((d'.values.insert name value).get? other)
      rw [Bindings.get?_insert, Bindings.get?_insert]
      split
      · next hother =>
        cases harg : argumentFrom 1 actuals other with
        | none => rfl
        | some found =>
          obtain ⟨k, hpos, hle, hk⟩ := exists_of_argumentFrom harg
          exact absurd (hk.symm.trans hother) (hne k hpos hle)
      · exact hd.values other
    · change (d'.values.insert name value).get? (positionalName k) = none
      rw [Bindings.get?_insert, if_neg (hne k hpos hle)]
      exact hd.unbound k hpos hle
  define := by
    intro c c' name rest h htokens
    have hinfix : [.assign name, .symbol .parenOpen] <:+: c.tokens :=
      htokens ▸ (List.prefix_append [_, _] rest).isInfix
    exact absurd hinfix (h.onlyReads.defines name)
  enterGroup h := {h with depth := congrArg (· + 1) h.depth}
  leaveGroup h := {h with depth := congrArg (· - 1) h.depth}
  call := by
    intro c c' d d' name rest inner values _ h htokens huser _
    have hmem : Token.call name ∈ c.tokens := htokens ▸ List.mem_cons_self
    rcases h.onlyReads.calls name hmem with habs | hpow
    · exact absurd habs huser.1
    · exact absurd hpow huser.2

/-- The body of a call and the body with the arguments written into it start out related. -/
theorem substituted_enterBody {c : Context} {name : String} {body : List Token}
    {actuals : List Decimal} (hbody : OnlyReads actuals.length body)
    (hunbound : ∀ k, 0 < k → k ≤ actuals.length → c.values.get? (positionalName k) = none) :
    Substituted actuals (c.enterBody name body actuals) (c.nested (substitute actuals body)) :=
  ⟨rfl, rfl, hbody, get?_bindFrom 1 c.values actuals, hunbound, rfl⟩

/-- When the arguments are unbound again the variables are the same. -/
theorem Substituted.get?_unbind_eq {actuals : List Decimal} {c c' : Context}
    (h : Substituted actuals c c') (name : String) :
    (unbind c.values actuals.length).get? name = c'.values.get? name := by
  rcases get?_unbind name c.values actuals.length with ⟨hnone, k, hpos, hle, rfl⟩ | ⟨hsame, hne⟩
  · rw [hnone, h.unbound k hpos hle]
  · have hother : argumentFrom 1 actuals name = none := by
      rw [Option.eq_none_iff_forall_ne_some]
      intro value hvalue
      obtain ⟨k, hpos, hle, hk⟩ := exists_of_argumentFrom hvalue
      exact hne k hpos hle hk
    rw [hsame, h.values name, hother, Option.none_or]

end Eval

open Eval

/-- Two evaluations have come to the same end: the same value, or failures of one kind, and the same
variables and functions in either case. -/
structure EndTogether (o o' : Outcome Decimal) : Prop where
  result : (Outcome.result o).mapError Failure.kind = (Outcome.result o').mapError Failure.kind
  values : ∀ name,
    (Outcome.context o).values.get? name = (Outcome.context o').values.get? name
  functions : (Outcome.context o).functions = (Outcome.context o').functions

/-- A call of a function whose body only reads positional names comes to the same end as the
evaluation, one level deeper, of the body with the arguments in their places. -/
theorem calling_is_substituting (settings : Settings) (bound : Nat) {c : Context} {name : String}
    {body : List Token} {actuals : List Decimal} (hname : IsUserName name)
    (hbody : c.functions.get? name = some body) (hreads : OnlyReads actuals.length body)
    (hunbound : ∀ k, 0 < k → k ≤ actuals.length → c.values.get? (positionalName k) = none) :
    EndTogether (call settings (calculate settings bound) name actuals c)
      (calculate settings bound (c.nested (substitute actuals body))) := by
  have hstart : Substituted actuals (c.enterBody name body actuals) _ :=
    substituted_enterBody hreads hunbound
  have hend := (mirroring_substituted settings actuals).calculate bound _ _ hstart
  rw [call_user hname.1 hname.2 hbody, callBody_apply]
  generalize calculate settings bound (c.enterBody name body actuals) = o at hend
  generalize calculate settings bound (c.nested (substitute actuals body)) = o' at hend
  cases hend with
  | ok h => exact ⟨rfl, h.get?_unbind_eq, h.functions.symm⟩
  | error hkind h => exact ⟨congrArg Except.error hkind.symm, h.get?_unbind_eq, h.functions.symm⟩

def rememberingBody : List Token :=
  [.read "$1", .symbol .add, .symbol .parenOpen, .assign "x", .read "$2", .symbol .parenClose,
    .symbol .add, .call "pow", .symbol .parenOpen, .read "$2", .symbol .separator, .read "y",
    .symbol .parenClose]

def rememberingContext : Context where
  depth := 1
  tokens := []
  values := Bindings.empty.insert "y" (.finite false 2 0)
  functions := Bindings.empty.insert "remember" rememberingBody
  trace := []

theorem rememberingBody_onlyReads : OnlyReads 2 rememberingBody := by
  have hassign : ∀ name, .assign name ∈ rememberingBody → name = "x" := by
    simp [rememberingBody]
  constructor
  · intro name hname
    right
    simpa [rememberingBody] using hname
  · intro name hname
    obtain rfl := hassign name (hname.subset List.mem_cons_self)
    revert hname
    decide
  · intro k _ _ hname
    exact positionalName_ne (by decide) (hassign _ hname)

theorem rememberingContext_unbound (k : Nat) :
    rememberingContext.values.get? (positionalName k) = none := by
  rw [rememberingContext, Bindings.get?_insert, if_neg (positionalName_ne (by decide))]
  rfl

/-- With the arguments three and four, `y` being two, the call comes to the same end as the body
with the two numbers written into it, which comes to 19. -/
theorem rememberingCall_is_substituting :
    IsUserName "remember" ∧
      rememberingContext.functions.get? "remember" = some rememberingBody ∧
      OnlyReads 2 rememberingBody ∧
      (∀ k, 0 < k → k ≤ 2 → rememberingContext.values.get? (positionalName k) = none) ∧
      substitute [.finite false 3 0, .finite false 4 0] rememberingBody =
        [.number (.finite false 3 0), .symbol .add, .symbol .parenOpen, .assign "x",
          .number (.finite false 4 0), .symbol .parenClose, .symbol .add, .call "pow",
          .symbol .parenOpen, .number (.finite false 4 0), .symbol .separator, .read "y",
          .symbol .parenClose] ∧
      (Outcome.result (calculate Settings.default 10 (rememberingContext.nested
        (substitute [.finite false 3 0, .finite false 4 0] rememberingBody)))).toOption =
          some (.finite false 19 0) ∧
      EndTogether
        (call Settings.default (calculate Settings.default 10) "remember"
          [.finite false 3 0, .finite false 4 0] rememberingContext)
        (calculate Settings.default 10 (rememberingContext.nested
          (substitute [.finite false 3 0, .finite false 4 0] rememberingBody))) :=
  ⟨⟨by decide, by decide⟩, by decide, rememberingBody_onlyReads,
    fun k _ _ => rememberingContext_unbound k, by decide +kernel, by decide +kernel,
    calling_is_substituting _ _ ⟨by decide, by decide⟩ (by decide) rememberingBody_onlyReads
      fun k _ _ => rememberingContext_unbound k⟩

end DecimalCalculator
