import DecimalCalculator.Proofs.Arithmetic.Failures
import DecimalCalculator.Proofs.Evaluation.Consumption

/-!
# Contracts of evaluations

A contract says in which contexts evaluations start and to which they come back, what their values
are like, how they fail, and what a failure leaves. The contexts are told apart by the number of
parentheses that are open, so that a contract can say something about the tokens to come. The laws
of a contract are about single steps: taking a token, entering and leaving a group or a body,
binding a name, and each operation on numbers. Every evaluation then honours it, however many
expressions may be open (`Eval.honours_calculate`).

Stable relations compare the two ends of an evaluation, and these are the invariants that ask for
more: for the values, or for the tokens that are still to come.
-/
namespace DecimalCalculator

def Satisfies {α : Type} (P : α → Prop) (F : Failure → Prop) : Except Failure α → Prop
  | .ok a => P a
  | .error failure => F failure

theorem Satisfies.bind {α β : Type} {P : α → Prop} {Q : β → Prop} {F : Failure → Prop}
    {x : Except Failure α} {f : α → Except Failure β} (hx : Satisfies P F x)
    (hf : ∀ a, P a → Satisfies Q F (f a)) : Satisfies Q F (x >>= f) := by
  cases x with
  | ok a => exact hf a hx
  | error failure => exact hx

/-- The operations on numbers keep to every contract that asks nothing of the values and allows the
failures of the arithmetic. -/
theorem satisfies_of_failsArithmetically {F : Failure → Prop}
    (hF : ∀ failure : Failure, failure.IsArithmetic → F failure) {x : Except Failure Decimal}
    (hx : Arithmetic.FailsArithmetically x) : Satisfies (fun _ => True) F x := by
  cases x with
  | ok a => trivial
  | error failure => exact hF failure (hx failure rfl)

/-- The reasons that lie in a single name or a single place of an expression. -/
def CalcError.IsLocal : CalcError → Prop
  | .expectedEnd _ => True
  | .incorrectArguments _ _ => True
  | .invalidSyntax => True
  | .unknownFunction _ => True
  | .unknownVariable _ => True
  | _ => False

/-- What evaluations are asked to keep to: where they start and end, with so many parentheses open,
what numbers they meet, how they may fail and what they leave if they do. -/
structure Contract (settings : Settings) where
  inside : Nat → Context → Prop
  left : Context → Prop
  value : Decimal → Prop
  failure : Failure → Prop
  -- What a failure leaves: the context in which a step fails, and what the way out makes of it.
  left_of_inside {opened : Nat} {c : Context} : inside opened c → left c
  left_drop {c : Context} {rest : List Token} :
    left c → rest <:+ c.tokens → left {c with tokens := rest}
  left_leaveGroup {d : Context} : left d → left d.leaveGroup
  left_leaveBody {opened : Nat} {c d : Context} (count : Nat) :
    inside opened c → left d → left (c.leaveBody count d)
  -- The steps. A body is evaluated with its own tokens, so it begins without open parentheses.
  drop {opened : Nat} {c : Context} {front rest : List Token} : inside opened c →
    c.tokens = front ++ rest → nesting opened front = some opened →
    inside opened {c with tokens := rest}
  enterGroup {opened : Nat} {c : Context} {rest : List Token} : inside opened c →
    c.tokens = .symbol .parenOpen :: rest → inside (opened + 1) {c with tokens := rest}.enterGroup
  leaveGroup {opened : Nat} {d : Context} {rest : List Token} : inside (opened + 1) d →
    d.tokens = .symbol .parenClose :: rest → inside opened {d.leaveGroup with tokens := rest}
  enterBody {opened : Nat} {c d : Context} {name : String} {rest body : List Token}
    {actuals : List Decimal} : inside opened c → c.tokens = .call name :: rest →
    name ≠ "abs" → name ≠ "pow" → inside opened d → d.functions.get? name = some body →
    (∀ a ∈ actuals, value a) → inside 0 (d.enterBody name body actuals)
  leaveBody {opened : Nat} {c d : Context} (count : Nat) : inside opened c → inside 0 d →
    inside opened (c.leaveBody count d)
  assign {opened : Nat} {c : Context} {a : Decimal} (name : String) : inside opened c → value a →
    inside opened {c with values := c.values.insert name a}
  define {opened : Nat} {c : Context} {name : String} {body rest after : List Token} :
    inside opened c → c.tokens = .assign name :: .symbol .parenOpen :: rest →
    capture settings.maxDepth 1 rest = (.ok body, after) →
    inside opened ({c with tokens := after, functions := c.functions.insert name body}.record
      (.define name body.length))
  -- Where numbers come from.
  number {opened : Nat} {c : Context} {a : Decimal} {rest : List Token} : inside opened c →
    c.tokens = .number a :: rest → value a
  known {opened : Nat} {c : Context} {name : String} {a : Decimal} : inside opened c →
    c.values.get? name = some a → value a
  zero : value Decimal.zero
  neg {a : Decimal} : value a → value a.neg
  abs {a : Decimal} : value a → value a.abs
  power {a b : Decimal} : value a → value b →
    Satisfies value failure (Arithmetic.power settings.memory settings.precision a b)
  complements {a : Decimal} (count : Nat) : value a →
    Satisfies value failure (Arithmetic.complements count a)
  factorial {a : Decimal} :
    value a → Satisfies value failure (Arithmetic.factorial settings.memory a)
  apply {level : Eval.Level} {op : Symbol} {a b : Decimal} : level ∈ Eval.levels →
    op ∈ level.operators → value a → value b →
    Satisfies value failure
      (Arithmetic.apply settings.memory settings.precision level.family (.symbol op) a b)
  -- The failures that are not about numbers. A parenthesis is missing only where the tokens end.
  ofLocal {error : CalcError} : error.IsLocal → failure error
  uncaptured {opened : Nat} {c : Context} {name : String} {rest after : List Token}
    {error : CalcError} : inside opened c → c.tokens = .assign name :: .symbol .parenOpen :: rest →
    capture settings.maxDepth 1 rest = (.error error, after) → failure error
  unclosed {opened : Nat} {d : Context} : inside (opened + 1) d → d.tokens = [] →
    failure CalcError.unclosedParen
  tooDeep {opened : Nat} {c : Context} : inside opened c → (settings.maxDepth : Int) ≤ c.depth →
    failure (CalcError.tooDeep .depth)
  outOfBound : failure (CalcError.tooDeep .expressions)

namespace Contract

variable {settings : Settings}

/-- The outcome is what the contract allows, and a value has the property. -/
inductive IsHonoured {α : Type} (K : Contract settings) (opened : Nat) (P : α → Prop) :
    Outcome α → Prop
  | ok {a : α} {d : Context} : P a → K.inside opened d → IsHonoured K opened P (.ok a d)
  | error {failure : Failure} {d : Context} : K.failure failure → K.left d →
    IsHonoured K opened P (.error failure d)

/-- Wherever the contract lets the computation start, its outcome is what the contract allows. -/
def Honours {α : Type} (K : Contract settings) (opened : Nat) (P : α → Prop) (m : Eval α) :
    Prop :=
  ∀ c, K.inside opened c → K.IsHonoured opened P (m c)

section

variable {α β : Type} {P : α → Prop} {Q : β → Prop} {K : Contract settings} {opened : Nat}

theorem IsHonoured.bind {m : Eval α} {f : α → Eval β} {c : Context}
    (hm : K.IsHonoured opened P (m c)) (hf : ∀ a, P a → K.Honours opened Q (f a)) :
    K.IsHonoured opened Q ((m >>= f) c) := by
  generalize ho : m c = o at hm
  cases hm with
  | ok ha hd =>
    rw [Eval.bind_ok ho]
    exact hf _ ha _ hd
  | error hfailure hd =>
    rw [Eval.bind_error ho]
    exact .error hfailure hd

theorem Honours.bind {m : Eval α} {f : α → Eval β} (hm : K.Honours opened P m)
    (hf : ∀ a, P a → K.Honours opened Q (f a)) : K.Honours opened Q (m >>= f) :=
  fun c hc => (hm c hc).bind hf

end

variable (K : Contract settings) {opened : Nat} {c : Context} {t : Token} {rest : List Token}

theorem drop_cons (hc : K.inside opened c) (htokens : c.tokens = t :: rest)
    (ht : t.nest opened = some opened) : K.inside opened {c with tokens := rest} := by
  have hone : nesting opened [t] = some opened := by
    rw [nesting_cons, ht]
    rfl
  exact K.drop hc (show c.tokens = [t] ++ rest from htokens) hone

theorem left_drop_cons (hc : K.inside opened c) (htokens : c.tokens = t :: rest) :
    K.left {c with tokens := rest} :=
  K.left_drop (K.left_of_inside hc) (htokens ▸ List.suffix_cons t rest)

end Contract

namespace Eval

open Context Contract

variable {settings : Settings} {K : Contract settings} {opened : Nat}
variable {α β : Type} {P : α → Prop}

theorem honours_pure {a : α} (ha : P a) : K.Honours opened P (pure a) := fun _ hc => .ok ha hc

theorem isHonoured_local {error : CalcError} (h : error.IsLocal) {c : Context} (hc : K.left c) :
    K.IsHonoured opened P (.error error c) :=
  .error (K.ofLocal h) hc

theorem honours_ofExcept {x : Except Failure α} (hx : Satisfies P K.failure x) :
    K.Honours opened P (ofExcept x) := by
  intro c hc
  cases x with
  | ok a => exact .ok hx hc
  | error failure => exact .error hx (K.left_of_inside hc)

/-! ## Tokens -/

theorem honours_accept {s : Symbol} (hs : Token.nest opened (.symbol s) = some opened) :
    K.Honours opened (fun _ => True) (accept (.symbol s)) := by
  intro c hc
  rcases accept_cases s c with ⟨rest, htokens, h⟩ | ⟨-, h⟩
  · rw [h]
    exact .ok trivial (K.drop_cons hc htokens hs)
  · rw [h]
    exact .ok trivial hc

theorem honours_acceptOneOf {operators : List Symbol}
    (hoperators : ∀ op ∈ operators, Token.nest opened (.symbol op) = some opened) :
    K.Honours opened (fun taken => ∀ op, taken = some op → op ∈ operators)
      (acceptOneOf operators) := by
  intro c hc
  rcases acceptOneOf_cases operators c with ⟨op, rest, htokens, hop, h⟩ | ⟨-, h⟩
  · rw [h]
    refine .ok ?_ (K.drop_cons hc htokens (hoperators op hop))
    rintro _ ⟨⟩
    exact hop
  · rw [h]
    exact .ok (by simp) hc

theorem honours_takeRun {s : Symbol} (hs : Token.nest 0 (.symbol s) = some 0) :
    K.Honours opened (fun _ => True) (takeRun s) :=
  fun c hc => .ok trivial (K.drop hc List.takeWhile_append_dropWhile.symm
    ((isClosed_takeWhile hs c.tokens).nesting opened))

/-! ## Chains -/

theorem honours_operands {operators : List Symbol} {operand : Eval α}
    (hoperators : ∀ op ∈ operators, Token.nest opened (.symbol op) = some opened)
    (hoperand : K.Honours opened P operand) (bound : TokenStream) :
    K.Honours opened (fun pairs => ∀ pair ∈ pairs, pair.1 ∈ operators ∧ P pair.2)
      (operands operators operand bound) := by
  induction bound with
  | nil => exact honours_pure (by simp)
  | cons t bound ih =>
    refine (honours_acceptOneOf hoperators).bind fun taken htaken => ?_
    cases taken with
    | none => exact honours_pure (by simp)
    | some op =>
      exact hoperand.bind fun value hvalue => ih.bind fun rest hrest =>
        honours_pure (List.forall_mem_cons.2 ⟨⟨htaken op rfl, hvalue⟩, hrest⟩)

theorem honours_allOperands {operators : List Symbol} {operand : Eval α}
    (hoperators : ∀ op ∈ operators, Token.nest opened (.symbol op) = some opened)
    (hoperand : K.Honours opened P operand) :
    K.Honours opened (fun pairs => ∀ pair ∈ pairs, pair.1 ∈ operators ∧ P pair.2)
      (allOperands operators operand) :=
  fun c hc => honours_operands hoperators hoperand c.tokens c hc

theorem satisfies_foldBack {F : Failure → Prop} {operators : List Symbol}
    {apply : Symbol → α → α → Except Failure α}
    (happly : ∀ op ∈ operators, ∀ a b, P a → P b → Satisfies P F (apply op a b)) {first : α}
    {rest : List (Symbol × α)} (hfirst : P first)
    (hrest : ∀ pair ∈ rest, pair.1 ∈ operators ∧ P pair.2) :
    Satisfies P F (foldBack apply first rest) := by
  induction rest generalizing first with
  | nil => exact hfirst
  | cons pair rest ih =>
    obtain ⟨⟨hop, hpair⟩, hrest⟩ := List.forall_mem_cons.1 hrest
    exact .bind (ih hpair hrest) fun second hsecond => happly pair.1 hop first second hfirst hsecond

theorem honours_chain {operators : List Symbol} {apply : Symbol → α → α → Except Failure α}
    {operand : Eval α}
    (hoperators : ∀ op ∈ operators, Token.nest opened (.symbol op) = some opened)
    (happly : ∀ op ∈ operators, ∀ a b, P a → P b → Satisfies P K.failure (apply op a b))
    (hoperand : K.Honours opened P operand) : K.Honours opened P (chain operators apply operand) :=
  hoperand.bind fun _ hfirst => (honours_allOperands hoperators hoperand).bind fun _ hrest =>
    honours_ofExcept (satisfies_foldBack happly hfirst hrest)

/-! ## Names -/

theorem honours_lookup (name : String) : K.Honours opened K.value (lookup name) := by
  intro c hc
  unfold lookup
  split
  · next a ha => exact .ok (K.known hc ha) hc
  · exact isHonoured_local (by trivial) (K.left_of_inside hc)

theorem honours_assign (name : String) {a : Decimal} (ha : K.value a) :
    K.Honours opened (fun _ => True) (assign name a) :=
  fun _ hc => .ok trivial (K.assign name hc ha)

theorem isHonoured_define {c : Context} (hc : K.inside opened c) {name : String}
    {rest : List Token} (htokens : c.tokens = .assign name :: .symbol .parenOpen :: rest) :
    K.IsHonoured opened (fun _ => True) (define settings name {c with tokens := rest}) := by
  cases hcap : capture settings.maxDepth 1 rest with
  | mk captured after =>
    cases captured with
    | ok body =>
      rw [define_of_capture_ok name (c := {c with tokens := rest}) hcap]
      exact .ok trivial (K.define (c := c) hc htokens hcap)
    | error error =>
      have hafter : after <:+ c.tokens :=
        htokens ▸ (suffix_of_capture hcap).trans (List.suffix_append [_, _] rest)
      rw [define_of_capture_error name (c := {c with tokens := rest}) hcap]
      exact .error (K.uncaptured hc htokens hcap)
        (K.left_drop (c := c) (K.left_of_inside hc) hafter)

/-! ## Atoms -/

theorem honours_sole {values : List Decimal} (h : ∀ a ∈ values, K.value a) :
    K.Honours opened K.value (sole values) := by
  unfold sole
  split
  · exact honours_pure (h _ List.mem_cons_self)
  · exact fun c hc => isHonoured_local (by trivial) (K.left_of_inside hc)

section

variable {bound : Nat}
  (hinner : ∀ opened, K.Honours opened K.value (calculate settings bound))
include hinner

theorem honours_items :
    K.Honours (opened + 1) (fun values => ∀ a ∈ values, K.value a)
      (items (calculate settings bound)) := by
  have hseparator : ∀ op ∈ [Symbol.separator],
      Token.nest (opened + 1) (.symbol op) = some (opened + 1) := by
    simp [Token.nest]
  refine (hinner (opened + 1)).bind fun first hfirst =>
    (honours_allOperands hseparator (hinner (opened + 1))).bind fun rest hrest =>
      honours_pure (List.forall_mem_cons.2 ⟨hfirst, fun a ha => ?_⟩)
  obtain ⟨pair, hpair, rfl⟩ := List.mem_map.1 ha
  exact (hrest pair hpair).2

theorem isHonoured_arguments {c : Context} (hc : K.inside opened c) {rest : List Token}
    (htokens : c.tokens = .symbol .parenOpen :: rest) :
    K.IsHonoured opened (fun values => ∀ a ∈ values, K.value a)
      (arguments (calculate settings bound) {c with tokens := rest}) := by
  by_cases hempty : rest.head? = some (.symbol .parenClose)
  · obtain ⟨more, rfl⟩ := List.head?_eq_some_iff.1 hempty
    rw [arguments_empty (c := {c with tokens := .symbol .parenClose :: more}) rfl]
    have hsplit : c.tokens = [.symbol .parenOpen, .symbol .parenClose] ++ more := htokens
    exact .ok (by simp) (K.drop (c := c) hc hsplit (IsClosed.nesting (by decide) opened))
  · rw [arguments_items (c := {c with tokens := rest}) hempty]
    have hinside := honours_items hinner _ (K.enterGroup hc htokens)
    generalize ho : items (calculate settings bound) {c with tokens := rest}.enterGroup = o
      at hinside
    cases hinside with
    | @ok values d hvalues hd =>
      have hgroup : inGroup (items (calculate settings bound)) {c with tokens := rest} =
          .ok values d.leaveGroup := by
        rw [inGroup_apply, ho]
        rfl
      rw [bind_ok hgroup]
      rcases items_end ho with hnil | ⟨more, hmore⟩
      · have hopen : d.leaveGroup.tokens.head? ≠ some (.symbol .parenClose) := by
          change d.tokens.head? ≠ _
          simp [hnil]
        rw [close_of_ne values hopen]
        exact .error (K.unclosed hd hnil) (K.left_leaveGroup (K.left_of_inside hd))
      · rw [close_cons values (c := d.leaveGroup) hmore]
        exact .ok hvalues (K.leaveGroup hd hmore)
    | @error failure d hfailure hd =>
      have hgroup : inGroup (items (calculate settings bound)) {c with tokens := rest} =
          .error failure d.leaveGroup := by
        rw [inGroup_apply, ho]
        rfl
      rw [bind_error hgroup]
      exact .error hfailure (K.left_leaveGroup hd)

/-- The call stands at the front of the context `c`, and is made when its arguments have been
evaluated. -/
theorem honours_call {c : Context} (hc : K.inside opened c) {name : String} {rest : List Token}
    (htokens : c.tokens = .call name :: rest) {actuals : List Decimal}
    (hactuals : ∀ a ∈ actuals, K.value a) :
    K.Honours opened K.value (call settings (calculate settings bound) name actuals) := by
  intro d hd
  by_cases habs : name = "abs"
  · unfold call
    rw [if_pos habs]
    split
    · exact .ok (K.abs (hactuals _ List.mem_cons_self)) hd
    · exact isHonoured_local (by trivial) (K.left_of_inside hd)
  by_cases hpow : name = "pow"
  · unfold call
    rw [if_neg habs, if_pos hpow]
    split
    · next a b =>
      have ha : K.value a := hactuals a List.mem_cons_self
      have hb : K.value b := hactuals b (List.mem_cons_of_mem a List.mem_cons_self)
      exact honours_ofExcept (K.power ha hb) d hd
    · exact isHonoured_local (by trivial) (K.left_of_inside hd)
  cases hbody : d.functions.get? name with
  | none =>
    rw [call_unknown habs hpow hbody]
    exact isHonoured_local (by trivial) (K.left_of_inside hd)
  | some body =>
    rw [call_user habs hpow hbody, callBody_apply]
    have hinside := hinner 0 _ (K.enterBody hc htokens habs hpow hd hbody hactuals)
    generalize calculate settings bound (d.enterBody name body actuals) = o at hinside
    cases hinside with
    | ok ha he => exact .ok ha (K.leaveBody _ hd he)
    | error hfailure he => exact .error hfailure (K.left_leaveBody _ hd he)

theorem honours_atom :
    K.Honours opened K.value (atom settings (calculate settings bound)) := by
  intro c hc
  cases htokens : c.tokens with
  | nil =>
    rw [atom_nil htokens]
    exact isHonoured_local (by trivial) (K.left_of_inside hc)
  | cons t rest =>
    cases t with
    | symbol s =>
      by_cases hs : s = .parenOpen
      · subst hs
        rw [atom_group htokens]
        exact (isHonoured_arguments hinner hc htokens).bind fun _ => honours_sole
      · rw [atom_symbol htokens hs]
        exact isHonoured_local (by trivial) (K.left_drop_cons hc htokens)
    | number value =>
      rw [atom_number htokens]
      exact .ok (K.number hc htokens) (K.drop_cons hc htokens rfl)
    | read name =>
      rw [atom_read htokens]
      exact honours_lookup name _ (K.drop_cons hc htokens rfl)
    | call name =>
      by_cases hopen : rest.head? = some (.symbol .parenOpen)
      · obtain ⟨more, rfl⟩ := List.head?_eq_some_iff.1 hopen
        rw [atom_call htokens]
        exact (isHonoured_arguments hinner (K.drop_cons hc htokens rfl) rfl).bind
          fun _ => honours_call hinner hc htokens
      · rw [atom_call_of_ne htokens hopen]
        exact isHonoured_local (by trivial) (K.left_drop_cons hc htokens)
    | assign name =>
      have hzero : K.Honours opened K.value (pure Decimal.zero) := honours_pure K.zero
      by_cases hopen : rest.head? = some (.symbol .parenOpen)
      · obtain ⟨more, rfl⟩ := List.head?_eq_some_iff.1 hopen
        rw [atom_define htokens]
        exact (isHonoured_define hc htokens).bind fun _ _ => hzero
      · rw [atom_assign htokens hopen]
        exact (hinner opened).bind (fun value hvalue =>
          (honours_assign name hvalue).bind fun _ _ => hzero) _ (K.drop_cons hc htokens rfl)

/-! ## Levels -/

theorem honours_primary : K.Honours opened K.value (primary settings (calculate settings bound)) :=
  (honours_takeRun rfl).bind fun signs _ => (honours_atom hinner).bind fun value hvalue =>
    honours_pure <| by
      split
      · exact K.neg hvalue
      · exact hvalue

theorem honours_complemented :
    K.Honours opened K.value (complemented settings (calculate settings bound)) :=
  (honours_takeRun rfl).bind fun signs _ => (honours_primary hinner).bind fun _ hvalue =>
    honours_ofExcept (K.complements signs hvalue)

theorem honours_operand :
    K.Honours opened K.value (operand settings (calculate settings bound)) := by
  refine (honours_complemented hinner).bind fun value hvalue =>
    (honours_accept rfl).bind fun taken _ => ?_
  cases taken with
  | none => exact honours_pure hvalue
  | some _ => exact honours_ofExcept (K.factorial hvalue)

theorem honours_cascade {tiers : List Level} (htiers : tiers ⊆ levels) :
    K.Honours opened K.value (cascade settings (calculate settings bound) tiers) := by
  have hlevels : ∀ level ∈ levels, ∀ op ∈ level.operators,
      Token.nest opened (.symbol op) = some opened := by
    simp [levels, Token.nest]
  induction tiers with
  | nil => exact honours_operand hinner
  | cons level rest ih =>
    obtain ⟨hlevel, hrest⟩ := List.cons_subset.1 htiers
    exact honours_chain (hlevels level hlevel)
      (fun op hop _ _ ha hb => K.apply hlevel hop ha hb) (ih hrest)

omit hinner in
theorem honours_finish : K.Honours opened (fun _ => True) finish := by
  intro c hc
  by_cases hend : c.AtEnd
  · rw [finish_of_atEnd hend]
    exact .ok trivial hc
  · obtain ⟨t, rest, htokens, hfinish⟩ := finish_of_not_atEnd hend
    rw [hfinish]
    exact isHonoured_local (by trivial) (K.left_drop_cons hc htokens)

theorem honours_expression :
    K.Honours opened K.value (expression settings (calculate settings bound)) := by
  intro c hc
  by_cases hdepth : c.depth < settings.maxDepth
  · rw [expression_of_lt hdepth]
    exact (honours_cascade hinner (List.Subset.refl levels)).bind (fun value hvalue =>
      honours_finish.bind fun _ _ => honours_pure hvalue) c hc
  · have hle := Int.not_lt.1 hdepth
    rw [expression_of_le hle]
    exact .error (K.tooDeep hc hle) (K.left_of_inside hc)

end

/-- Every evaluation honours every contract. -/
theorem honours_calculate (K : Contract settings) (bound opened : Nat) :
    K.Honours opened K.value (calculate settings bound) := by
  induction bound generalizing opened with
  | zero => exact fun c hc => .error K.outOfBound (K.left_of_inside hc)
  | succ bound ih => exact honours_expression ih

end Eval

end DecimalCalculator
