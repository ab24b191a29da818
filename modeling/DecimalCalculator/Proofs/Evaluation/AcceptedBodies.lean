import DecimalCalculator.Proofs.Evaluation.Capturing
import DecimalCalculator.Proofs.Evaluation.Contracts
import DecimalCalculator.Proofs.Evaluation.Depth
import DecimalCalculator.Proofs.Evaluation.Substitution
import DecimalCalculator.Proofs.Evaluation.Termination

/-!
# Bodies that a definition has accepted

Two guards look at how deep things are nested. A definition counts the parentheses of its body, the
one around it included, and an evaluation counts the groups and bodies that it has entered. Here the
two counts are brought together: in a body that a definition accepts, and that calls no function of
the user, an evaluation has entered one level more than parentheses of the body are open
(`Context.IsSheltered`). The body calls for no more than the definition has allowed, so neither the
evaluation nor a definition inside the body is refused (`Contract.sheltered`).

A definition inside the body begins to count anew, at one, but its parentheses are parentheses of
the body as well, and the body has room for them.
-/
namespace DecimalCalculator

/-- Nothing but the functions of the calculator is called. -/
def CallsBuiltins (ts : List Token) : Prop :=
  ∀ name, .call name ∈ ts → ¬IsUserName name

theorem CallsBuiltins.suffix {ts us : List Token} (h : CallsBuiltins ts) (hu : us <:+ ts) :
    CallsBuiltins us :=
  fun name hname => h name (hu.subset hname)

/-- Behind the beginning of a shallow sequence it goes on as shallow. -/
theorem IsShallow.of_append {bound opened next : Nat} {front rest : List Token}
    (h : IsShallow bound opened (front ++ rest)) (hfront : nesting opened front = some next) :
    IsShallow bound next rest := by
  intro start back k hrest hne hk
  refine h (front ++ start) back k ?_ (List.append_ne_nil_of_right_ne_nil front hne) ?_
  · rw [hrest, List.append_assoc]
  · rw [nesting_append, hfront, Option.bind_some, hk]

/-- Inside a shallow sequence no capture meets the bound, as it counts fewer parentheses. -/
theorem IsShallow.capture_ne_tooDeep {bound opened : Nat} {ts rest : List Token}
    (h : IsShallow bound opened ts) :
    capture bound 1 ts ≠ (.error (.tooDeep .definition), rest) := by
  intro hcap
  cases capture_eq_iff.1 hcap with
  | @tooDeep front _ t hfront hsep hnonneg hdeep =>
    obtain ⟨⟨j, hj⟩, -⟩ := isPassable_iff.1 hfront
    have hbalance := (nesting_eq_some_iff.1 hj).2.2
    rw [balance_append] at hnonneg hdeep
    obtain ⟨k, hk⟩ := Int.eq_ofNat_of_zero_le hnonneg
    have ht : t.nest j = some k :=
      Token.nest_eq_some_iff.2 ⟨fun hseparator => by have := hsep hseparator; omega, by omega⟩
    have hconcat : nesting 0 (front ++ [t]) = some k := by
      rw [nesting_append, hj, Option.bind_some, nesting_cons, ht]
      rfl
    have hinside := nesting_add hconcat opened
    rw [Nat.zero_add] at hinside
    have hbound := h (front ++ [t]) rest (k + opened) (by simp) (by simp) hinside
    omega

/-- The context lies in an accepted body, of whose parentheses `opened` are open: the depth is
accounted for by these and the call, and the tokens to come stay within the bound. -/
structure Context.IsSheltered (settings : Settings) (opened : Nat) (c : Context) : Prop where
  depth : c.depth = opened + 1
  below : opened + 1 < settings.maxDepth
  shallow : IsShallow settings.maxDepth opened c.tokens
  builtins : CallsBuiltins c.tokens

namespace Context.IsSheltered

variable {settings : Settings} {opened : Nat} {c : Context}

theorem drop (h : c.IsSheltered settings opened) {front rest : List Token}
    (htokens : c.tokens = front ++ rest) (hfront : nesting opened front = some opened) :
    {c with tokens := rest}.IsSheltered settings opened where
  depth := h.depth
  below := h.below
  shallow := (htokens ▸ h.shallow).of_append hfront
  builtins := h.builtins.suffix (htokens ▸ List.suffix_append front rest)

/-- A parenthesis that the body opens leads one level deeper in both counts. -/
theorem enterGroup (h : c.IsSheltered settings opened) {rest : List Token}
    (htokens : c.tokens = .symbol .parenOpen :: rest) :
    {c with tokens := rest}.enterGroup.IsSheltered settings (opened + 1) := by
  have hshallow := h.shallow
  rw [htokens, isShallow_cons rfl] at hshallow
  exact ⟨congrArg (· + 1) h.depth, hshallow.1, hshallow.2,
    h.builtins.suffix (htokens ▸ List.suffix_cons _ rest)⟩

theorem leaveGroup {d : Context} (h : d.IsSheltered settings (opened + 1)) {rest : List Token}
    (htokens : d.tokens = .symbol .parenClose :: rest) :
    {d.leaveGroup with tokens := rest}.IsSheltered settings opened := by
  have hclose : Token.nest (opened + 1) (.symbol .parenClose) = some opened := by simp [Token.nest]
  have hdepth := h.depth
  have hbelow := h.below
  have hshallow := h.shallow
  rw [htokens, isShallow_cons hclose] at hshallow
  refine ⟨?_, by omega, hshallow.2, h.builtins.suffix (htokens ▸ List.suffix_cons _ rest)⟩
  change d.depth - 1 = opened + 1
  omega

theorem define (h : c.IsSheltered settings opened) {name : String} {rest body after : List Token}
    (htokens : c.tokens = .assign name :: .symbol .parenOpen :: rest)
    (hcap : capture settings.maxDepth 1 rest = (.ok body, after)) :
    ({c with tokens := after, functions := c.functions.insert name body}.record
      (.define name body.length)).IsSheltered settings opened := by
  obtain ⟨front, hsplit, -, hclosed⟩ := exists_isClosed_of_capture name hcap
  have hafter := h.drop (htokens.trans hsplit) (hclosed.nesting opened)
  exact ⟨hafter.depth, hafter.below, hafter.shallow, hafter.builtins⟩

/-- A definition in an accepted body is refused by no bound. -/
theorem capture_ne_tooDeep (h : c.IsSheltered settings opened) {name : String}
    {rest after : List Token} (htokens : c.tokens = .assign name :: .symbol .parenOpen :: rest) :
    capture settings.maxDepth 1 rest ≠ (.error (.tooDeep .definition), after) := by
  have hshallow := h.shallow
  rw [htokens, isShallow_cons rfl, isShallow_cons rfl] at hshallow
  exact hshallow.2.2.capture_ne_tooDeep

end Context.IsSheltered

/-- The failures of the two guards. -/
def Failure.IsRefusal (failure : Failure) : Prop :=
  failure = CalcError.tooDeep .depth ∨ failure = CalcError.tooDeep .definition

theorem satisfies_not_isRefusal {x : Except Failure Decimal}
    (hx : Arithmetic.FailsArithmetically x) :
    Satisfies (fun _ => True) (fun failure => ¬failure.IsRefusal) x := by
  refine satisfies_of_failsArithmetically ?_ hx
  rintro _ h (rfl | rfl)
  · exact h
  · exact h

/-- In a sheltered context an evaluation is not refused, and comes to a sheltered context. -/
def Contract.sheltered (settings : Settings) : Contract settings where
  inside opened c := c.IsSheltered settings opened
  left _ := True
  value _ := True
  failure failure := ¬failure.IsRefusal
  left_of_inside _ := trivial
  left_drop _ _ := trivial
  left_leaveGroup _ := trivial
  left_leaveBody _ _ _ := trivial
  drop h := h.drop
  enterGroup h := h.enterGroup
  leaveGroup h := h.leaveGroup
  enterBody h htokens habs hpow _ _ _ :=
    absurd ⟨habs, hpow⟩ (h.builtins _ (htokens ▸ List.mem_cons_self))
  leaveBody _ h _ := ⟨h.depth, h.below, h.shallow, h.builtins⟩
  assign _ h _ := ⟨h.depth, h.below, h.shallow, h.builtins⟩
  define h := h.define
  number _ _ := trivial
  known _ _ := trivial
  zero := trivial
  neg _ := trivial
  abs _ := trivial
  power _ _ := satisfies_not_isRefusal (Arithmetic.failsArithmetically_power _ _ _ _)
  complements _ _ := satisfies_not_isRefusal (Arithmetic.failsArithmetically_complements _ _)
  factorial _ := satisfies_not_isRefusal (Arithmetic.failsArithmetically_factorial _ _)
  apply _ _ _ _ := satisfies_not_isRefusal (Arithmetic.failsArithmetically_apply _ _ _ _ _ _)
  ofLocal h := by
    rintro (⟨⟨⟩⟩ | ⟨⟨⟩⟩)
    · exact h
    · exact h
  uncaptured h htokens hcap := by
    rintro (⟨⟨⟩⟩ | ⟨⟨⟩⟩)
    · simpa using capture_error (congrArg Prod.fst hcap)
    · exact h.capture_ne_tooDeep htokens hcap
  unclosed _ _ := by simp [Failure.IsRefusal]
  tooDeep h hle := by
    have hdepth := h.depth
    have hbelow := h.below
    omega
  outOfBound := by simp [Failure.IsRefusal]

namespace Eval

open Context

variable {settings : Settings}

/-! ## Calls -/

/-- The body of a function that is called from the outermost level is sheltered as a whole. -/
theorem isSheltered_enterBody {body : List Token} (hbody : IsBody settings.maxDepth body)
    (hne : body ≠ []) (hbuiltins : CallsBuiltins body) {c : Context} (hc : c.depth = 0)
    (name : String) (actuals : List Decimal) :
    (c.enterBody name body actuals).IsSheltered settings 0 := by
  refine ⟨congrArg (· + 1) hc, ?_, hbody.2, hbuiltins⟩
  obtain ⟨t, rest, rfl⟩ := List.exists_cons_of_ne_nil hne
  obtain ⟨hclosed, hshallow⟩ := hbody
  rw [IsClosed, nesting_cons] at hclosed
  obtain ⟨next, hnext, -⟩ := Option.bind_eq_some_iff.1 hclosed
  have hbound := ((isShallow_cons hnext).1 hshallow).1
  omega

/-- A call from the outermost level whose body has been accepted is refused by neither guard,
whatever evaluates its body. -/
theorem not_isRefusal_of_accepted {inner : Eval Decimal}
    (hinner : (Contract.sheltered settings).Honours 0 (fun _ => True) inner)
    {name : String} {body : List Token} (hbody : IsBody settings.maxDepth body) (hne : body ≠ [])
    (hbuiltins : CallsBuiltins body) (hname : IsUserName name) {c : Context} (hc : c.depth = 0)
    (hfunction : c.functions.get? name = some body) (actuals : List Decimal) {failure : Failure}
    (h : Outcome.result (call settings inner name actuals c) = .error failure) :
    ¬failure.IsRefusal := by
  have hhonoured := hinner _ (isSheltered_enterBody hbody hne hbuiltins hc name actuals)
  rw [call_user hname.1 hname.2 hfunction, callBody_apply, Outcome.result_mapContext] at h
  generalize inner (c.enterBody name body actuals) = o at hhonoured h
  cases hhonoured with
  | ok _ _ => cases h
  | error hfailure _ =>
    cases h
    exact hfailure

/-- The guard of definitions and that of evaluations agree. A body that is not empty, that a
definition accepts, and that calls only the functions of the calculator, is never refused for its
nesting when a function with this body is called from the outermost level. Without a limit on the
open expressions such a call is not refused at all. With a limit it can only meet this limit, and
only where all open expressions are assignments, but for fewer than the greatest depth. -/
theorem accepted_body_never_tooDeep (settings : Settings) {tokens body rest : List Token}
    (hcap : capture settings.maxDepth 1 tokens = (.ok body, rest)) (hne : body ≠ [])
    (hbuiltins : CallsBuiltins body) {name : String} (hname : IsUserName name) {c : Context}
    (hc : c.depth = 0) (hfunction : c.functions.get? name = some body) (actuals : List Decimal) :
    (∀ cause, Outcome.result (call settings (unbounded settings) name actuals c) ≠
      .error (CalcError.tooDeep cause)) ∧
    ∀ bound cause, Outcome.result (call settings (calculate settings bound) name actuals c) =
      .error (CalcError.tooDeep cause) →
      cause = .expressions ∧ ∃ path d,
        Visits settings bound (c.enterBody name body actuals) path 0 d ∧
          bound < path.count .assigned + settings.maxDepth := by
  obtain ⟨-, hbody⟩ := capture_eq_ok_iff.1 hcap
  have hcause {inner : Eval Decimal}
      (hinner : (Contract.sheltered settings).Honours 0 (fun _ => True) inner)
      {cause : NestingBound} (h : Outcome.result (call settings inner name actuals c) =
        .error (CalcError.tooDeep cause)) : cause = .expressions := by
    have hallowed :=
      not_isRefusal_of_accepted hinner hbody hne hbuiltins hname hc hfunction actuals h
    cases cause with
    | depth => exact absurd (.inl rfl) hallowed
    | definition => exact absurd (.inr rfl) hallowed
    | expressions => rfl
  constructor
  · intro cause h
    obtain rfl := hcause (fun d hd => honours_calculate _ _ 0 d hd) h
    rw [call_user hname.1 hname.2 hfunction, callBody_apply, Outcome.result_mapContext] at h
    exact result_unbounded_ne settings _ h
  · intro bound cause h
    obtain rfl := hcause (honours_calculate _ bound 0) h
    rw [call_user hname.1 hname.2 hfunction, callBody_apply, Outcome.result_mapContext] at h
    obtain ⟨path, d, hpath⟩ := visits_of_outOfBound h
    have hinside : (c.enterBody name body actuals).depth = 1 := congrArg (· + 1) hc
    have hassigned := hpath.le_assigned (by have := settings.maxDepth_pos; omega)
    exact ⟨rfl, path, d, hpath, by omega⟩

/-- A call and a group in its body are as deep as three levels allow. A definition accepts `($1)` as
a body there, and a call of it is not refused. -/
theorem accepted_group_never_tooDeep :
    let settings : Settings := .ofDepth 3 (by decide) (by decide)
    capture settings.maxDepth 1 [.symbol .parenOpen, .read "$1", .symbol .parenClose,
        .symbol .parenClose] =
      (.ok [.symbol .parenOpen, .read "$1", .symbol .parenClose], []) ∧
    ∀ cause, Outcome.result (call settings (unbounded settings) "f" [Decimal.one]
        (Context.start [] .empty (Bindings.empty.insert "f"
          [.symbol .parenOpen, .read "$1", .symbol .parenClose]))) ≠
      .error (CalcError.tooDeep cause) := by
  intro settings
  have hcap : capture settings.maxDepth 1 [.symbol .parenOpen, .read "$1", .symbol .parenClose,
      .symbol .parenClose] = (.ok [.symbol .parenOpen, .read "$1", .symbol .parenClose], []) := by
    decide
  refine ⟨hcap, (accepted_body_never_tooDeep settings hcap (by simp) ?_ (by simp [IsUserName])
    rfl rfl [Decimal.one]).1⟩
  intro name hname
  simp at hname

end Eval

end DecimalCalculator
