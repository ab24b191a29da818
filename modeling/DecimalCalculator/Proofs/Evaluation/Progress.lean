import DecimalCalculator.Proofs.Evaluation.Preservation

/-!
# Progress of an evaluation

An evaluation comes back to the depth at which it started, with the tokens that it has not taken,
and every function that is then defined has a body that was there before: a stretch of the tokens to
come or of an earlier body. `calculate_follows` says so for every evaluation, returned or failed.

Two consequences are used everywhere. An operator chain may be read as the recursion that evaluates
one operand, and then the rest of the chain at the same level (`chain_unfold`), since no operand
puts tokens back. And the contexts in which nested expressions are evaluated are known in advance:
they have fewer tokens at the same depth, or lie one level deeper.
-/
namespace DecimalCalculator

namespace Context

/-- A stretch of the tokens to come or of the body of a function. -/
def Holds (c : Context) (ts : List Token) : Prop :=
  ts <:+: c.tokens ∨ ∃ name body, c.functions.get? name = some body ∧ ts <:+: body

/-- What an evaluation from the context `c` can leave. -/
structure Follows (c d : Context) : Prop where
  depth : d.depth = c.depth
  tokens : d.tokens <:+ c.tokens
  functions : ∀ name body, d.functions.get? name = some body → c.Holds body

theorem holds_tokens (c : Context) : c.Holds c.tokens := .inl List.infix_rfl

theorem holds_body {c : Context} {name : String} {body : List Token}
    (h : c.functions.get? name = some body) : c.Holds body :=
  .inr ⟨name, body, h, List.infix_rfl⟩

theorem Holds.of_isInfix {c : Context} {ts us : List Token} (h : c.Holds ts) (hu : us <:+: ts) :
    c.Holds us := by
  rcases h with h | ⟨name, body, hbody, h⟩
  · exact .inl (hu.trans h)
  · exact .inr ⟨name, body, hbody, hu.trans h⟩

theorem Follows.refl (c : Context) : c.Follows c :=
  ⟨rfl, List.suffix_rfl, fun _ _ h => holds_body h⟩

theorem Follows.holds {c d : Context} (h : c.Follows d) {ts : List Token} (hts : d.Holds ts) :
    c.Holds ts := by
  rcases hts with hts | ⟨name, body, hbody, hts⟩
  · exact .inl (hts.trans h.tokens.isInfix)
  · exact (h.functions name body hbody).of_isInfix hts

theorem Follows.trans {c d e : Context} (h : c.Follows d) (h' : d.Follows e) : c.Follows e :=
  ⟨h'.depth.trans h.depth, h'.tokens.trans h.tokens,
    fun name body hbody => h.holds (h'.functions name body hbody)⟩

theorem follows_drop {c : Context} {rest : List Token} (h : rest <:+ c.tokens) :
    c.Follows {c with tokens := rest} :=
  ⟨rfl, h, fun _ _ hbody => holds_body hbody⟩

theorem follows_drop_cons {c : Context} {t : Token} {rest : List Token} (h : c.tokens = t :: rest) :
    c.Follows {c with tokens := rest} :=
  follows_drop (h ▸ List.suffix_cons t rest)

/-- What a function body holds, or the bindings around it, the context of its call holds. -/
theorem holds_of_enterBody {c : Context} {name : String} {body ts : List Token}
    {actuals : List Decimal} (hbody : c.functions.get? name = some body)
    (h : (c.enterBody name body actuals).Holds ts) : c.Holds ts := by
  rcases h with h | ⟨other, bs, hbs, h⟩
  · exact (holds_body hbody).of_isInfix h
  · exact .inr ⟨other, bs, hbs, h⟩

end Context

namespace Eval

open Context

variable {α β : Type} {settings : Settings}

theorem stable_follows (settings : Settings) : Stable settings Follows where
  refl := Follows.refl
  trans := Follows.trans
  drop := follows_drop
  assign := by
    intro c d name rest value htokens h
    have hdrop := (follows_drop_cons htokens).trans h
    exact ⟨hdrop.depth, hdrop.tokens, hdrop.functions⟩
  define := by
    intro c name body rest after htokens hcap
    obtain ⟨hrest, -⟩ := capture_eq_ok_iff.1 hcap
    refine ⟨rfl, ?_, ?_⟩
    · rw [htokens, hrest]
      exact ⟨.assign name :: .symbol .parenOpen :: body ++ [.symbol .parenClose],
        by simp [Context.record]⟩
    · intro other bs hbs
      change (c.functions.insert name body).get? other = some bs at hbs
      rw [Bindings.get?_insert] at hbs
      split_ifs at hbs
      · cases hbs
        refine .inl ?_
        rw [htokens, hrest]
        exact ⟨[.assign name, .symbol .parenOpen], .symbol .parenClose :: after, by simp⟩
      · exact holds_body hbs
  group := by
    intro c d h
    have hdepth : d.depth = c.depth + 1 := h.depth
    refine ⟨?_, h.tokens, h.functions⟩
    change d.depth - 1 = c.depth
    omega
  body := by
    intro c d name body actuals hbody h
    exact ⟨rfl, List.suffix_rfl,
      fun other bs hbs => holds_of_enterBody hbody (h.functions other bs hbs)⟩

/-- An evaluation returns or fails at its own depth, has only taken tokens, and has defined
functions only by stretches of what was there. -/
theorem calculate_follows (settings : Settings) (bound : Nat) :
    Keeps Follows (calculate settings bound) :=
  (stable_follows settings).calculate bound

/-! ## Chains as recursions -/

/-- A computation that returns puts no tokens back. -/
def MovesForward (m : Eval α) : Prop :=
  ∀ ⦃c a d⦄, m c = .ok a d → d.tokens.length ≤ c.tokens.length

theorem follows_length {m : Eval α} (hm : Keeps Follows m) : MovesForward m := by
  intro c a d h
  have hfollows := hm c
  rw [h] at hfollows
  exact hfollows.tokens.length_le

theorem operands_of_none {operators : List Symbol} {operand : Eval α} {bound : TokenStream}
    {c : Context} (h : acceptOneOf operators c = .ok none c) :
    operands operators operand bound c = .ok [] c := by
  cases bound with
  | nil => rfl
  | cons t bound =>
    rw [operands, bind_ok h]
    rfl

theorem operands_of_some {operators : List Symbol} {operand : Eval α} {t : Token}
    {bound : TokenStream} {c d : Context} {op : Symbol}
    (h : acceptOneOf operators c = .ok (some op) d) :
    operands operators operand (t :: bound) c =
      (operand >>= fun value => operands operators operand bound >>= fun rest =>
        pure ((op, value) :: rest)) d := by
  rw [operands, bind_ok h]

theorem operands_eq_of_le {operators : List Symbol} {operand : Eval α}
    (hm : MovesForward operand) {bound bound' : TokenStream} {c : Context}
    (h : c.tokens.length ≤ bound.length) (h' : c.tokens.length ≤ bound'.length) :
    operands operators operand bound c = operands operators operand bound' c := by
  rcases acceptOneOf_cases operators c with ⟨s, rest, htokens, -, hsome⟩ | ⟨-, hnone⟩
  · rw [htokens, List.length_cons] at h h'
    induction bound generalizing bound' c s rest with
    | nil => exact absurd h (by simp)
    | cons t bound ih =>
      cases bound' with
      | nil => exact absurd h' (by simp)
      | cons t' bound' =>
        rw [operands_of_some hsome, operands_of_some hsome]
        refine bind_congr_right fun value d hvalue => bind_congr_left ?_ _
        have hlength : d.tokens.length ≤ rest.length := hm hvalue
        simp only [List.length_cons] at h h'
        rcases acceptOneOf_cases operators d with ⟨s, rest, htokens, -, hsome⟩ | ⟨-, hnone⟩
        · rw [htokens, List.length_cons] at hlength
          exact ih s rest (by omega) (by omega) htokens hsome
        · rw [operands_of_none hnone, operands_of_none hnone]
  · rw [operands_of_none hnone, operands_of_none hnone]

/-- The operands of a chain are gathered until no operator follows. -/
theorem allOperands_unfold (operators : List Symbol) {operand : Eval α}
    (hm : MovesForward operand) :
    allOperands operators operand = (do
      match ← acceptOneOf operators with
      | none => pure []
      | some op =>
        let value ← operand
        let rest ← allOperands operators operand
        pure ((op, value) :: rest)) := by
  funext c
  rcases acceptOneOf_cases operators c with ⟨s, rest, htokens, -, hsome⟩ | ⟨-, hnone⟩
  · rw [bind_ok hsome, allOperands, bind_ok (get_apply c), htokens, operands_of_some hsome]
    refine bind_congr_right fun value d hvalue => bind_congr_left ?_ _
    exact operands_eq_of_le hm (hm hvalue) (Nat.le_refl _)
  · rw [bind_ok hnone, allOperands, bind_ok (get_apply c), operands_of_none hnone]
    rfl

/-- A chain is one operand, or one operand, an operator and the chain after it. -/
theorem chain_unfold (operators : List Symbol) (apply : Symbol → α → α → Except Failure α)
    {operand : Eval α} (hm : MovesForward operand) :
    chain operators apply operand = (do
      let first ← operand
      match ← acceptOneOf operators with
      | none => pure first
      | some op =>
        let second ← chain operators apply operand
        ofExcept (apply op first second)) := by
  funext c
  conv =>
    lhs
    rw [chain]
  refine bind_congr_right fun first d _ => ?_
  rw [allOperands_unfold operators hm, bind_assoc]
  refine bind_congr_right fun taken e _ => ?_
  cases taken with
  | none => rfl
  | some op =>
    simp only [chain, bind_assoc, pure_bind]
    refine bind_congr_right fun value _ _ => bind_congr_right fun rest _ _ => ?_
    exact congrFun (ofExcept_bind _ _) _

end Eval

end DecimalCalculator
