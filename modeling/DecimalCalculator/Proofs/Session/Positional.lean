import DecimalCalculator.Proofs.Evaluation.Progress
import DecimalCalculator.Proofs.Session.Requests
import DecimalCalculator.Text.Numeral.Lemmas

/-!
# Positional names

The arguments of a call are bound to positional names while the body of the function is evaluated.
As long as nothing assigns to such a name, none of them is bound outside a body, and this holds
after every request of a session, failed or not and wherever it failed. The invariant of a single
evaluation is that it binds no positional name that was not bound at its start: what a call binds it
unbinds, and calls inside it may only unbind more.
-/
namespace DecimalCalculator

/-- Nothing in the sequence assigns to a positional name. -/
def SparesPositional (ts : List Token) : Prop :=
  ∀ k, 0 < k → Token.assign (Eval.positionalName k) ∉ ts

theorem SparesPositional.of_isInfix {ts us : List Token} (h : SparesPositional ts)
    (hu : us <:+: ts) :
    SparesPositional us :=
  fun k hk hmem => h k hk (hu.subset hmem)

namespace Eval

open Context

theorem get?_bindFrom_of_ne {name : String} (number : Nat) (values : Bindings Decimal)
    (actuals : List Decimal)
    (h : ∀ k, number ≤ k → k < number + actuals.length → name ≠ positionalName k) :
    (bindFrom number values actuals).get? name = values.get? name := by
  induction actuals generalizing number values with
  | nil => rfl
  | cons a rest ih =>
    rw [bindFrom, ih (number + 1)]
    · rw [Bindings.get?_insert, if_neg (h number (Nat.le_refl _) (by simp))]
    · intro k hle hlt
      exact h k (by omega) (by rw [List.length_cons]; omega)

theorem get?_unbind (name : String) (values : Bindings Decimal) (count : Nat) :
    (unbind values count).get? name = none ∧
        (∃ k, 0 < k ∧ k ≤ count ∧ name = positionalName k) ∨
      (unbind values count).get? name = values.get? name ∧
        ∀ k, 0 < k → k ≤ count → name ≠ positionalName k := by
  induction count with
  | zero => exact .inr ⟨rfl, fun k hpos hle => by omega⟩
  | succ count ih =>
    rw [unbind, Bindings.get?_erase]
    by_cases h : name = positionalName (count + 1)
    · rw [if_pos h]
      exact .inl ⟨rfl, count + 1, Nat.succ_pos count, Nat.le_refl _, h⟩
    · rw [if_neg h]
      rcases ih with ⟨hnone, k, hpos, hle, hk⟩ | ⟨hsame, hne⟩
      · exact .inl ⟨hnone, k, hpos, Nat.le_succ_of_le hle, hk⟩
      · refine .inr ⟨hsame, fun k hpos hle => ?_⟩
        rcases Nat.le_succ_iff.1 hle with hle | rfl
        · exact hne k hpos hle
        · exact h

theorem get?_unbind_positional (values : Bindings Decimal) {count k : Nat} (hpos : 0 < k)
    (hle : k ≤ count) : (unbind values count).get? (positionalName k) = none := by
  rcases get?_unbind (positionalName k) values count with ⟨h, -⟩ | ⟨-, hne⟩
  · exact h
  · exact absurd rfl (hne k hpos hle)

/-- From `c` to `d` no positional name has become bound, unless something could assign to one. -/
structure NoLeak (c d : Context) : Prop where
  follows : c.Follows d
  unbound : (∀ ts, c.Holds ts → SparesPositional ts) → ∀ k, 0 < k →
    c.values.get? (positionalName k) = none → d.values.get? (positionalName k) = none

theorem stable_noLeak (settings : Settings) : Stable settings NoLeak where
  refl c := ⟨Follows.refl c, fun _ _ _ h => h⟩
  trans h h' := ⟨h.follows.trans h'.follows, fun hspares k hk hunbound =>
    h'.unbound (fun ts hts => hspares ts (h.follows.holds hts)) k hk
      (h.unbound hspares k hk hunbound)⟩
  drop h := ⟨follows_drop h, fun _ _ _ h => h⟩
  assign := by
    intro c d name rest value htokens h
    refine ⟨(stable_follows settings).assign value htokens h.follows, ?_⟩
    intro hspares k hk hunbound
    have hdrop := follows_drop_cons htokens
    have hd := h.unbound (fun ts hts => hspares ts (hdrop.holds hts)) k hk hunbound
    have hname : positionalName k ≠ name := by
      rintro rfl
      refine hspares c.tokens (holds_tokens c) k hk ?_
      rw [htokens]
      exact List.mem_cons_self
    change (d.values.insert name value).get? (positionalName k) = none
    rw [Bindings.get?_insert, if_neg hname, hd]
  define htokens hcap :=
    ⟨(stable_follows settings).define htokens hcap, fun _ _ _ h => h⟩
  group h := ⟨(stable_follows settings).group h.follows, h.unbound⟩
  body := by
    intro c d name body actuals hbody h
    refine ⟨(stable_follows settings).body actuals hbody h.follows, ?_⟩
    intro hspares k hk hunbound
    change (unbind d.values actuals.length).get? (positionalName k) = none
    obtain ⟨hnone, -⟩ | ⟨hsame, hne⟩ :=
      get?_unbind (positionalName k) d.values actuals.length
    · exact hnone
    · rw [hsame]
      refine h.unbound (fun ts hts => hspares ts (holds_of_enterBody hbody hts)) k hk ?_
      change (bindFrom 1 c.values actuals).get? (positionalName k) = none
      rw [get?_bindFrom_of_ne 1 c.values actuals, hunbound]
      intro l hpos hlt heq
      exact hne l hpos (by omega) heq

end Eval

namespace Session

open Eval

/-- No positional name is bound, and no function assigns to one. -/
structure Tidy (session : Session) : Prop where
  values : ∀ k, 0 < k → session.values.get? (positionalName k) = none
  functions : ∀ name body, session.functions.get? name = some body → SparesPositional body

theorem Tidy.evaluateTokens {session : Session} (h : session.Tidy) {tokens : List Token}
    (htokens : SparesPositional tokens) : (session.evaluateTokens tokens).session.Tidy := by
  have hspares : ∀ ts, (Context.start tokens session.values session.functions).Holds ts →
      SparesPositional ts := by
    rintro ts (hts | ⟨name, body, hbody, hts⟩)
    · exact htokens.of_isInfix hts
    · exact (h.functions name body hbody).of_isInfix hts
  have hleak : NoLeak (Context.start tokens session.values session.functions) _ :=
    (stable_noLeak session.settings).calculate session.settings.expressionLimit _
  exact ⟨fun k hk => hleak.unbound hspares k hk (h.values k hk),
    fun name body hbody => hspares body (hleak.follows.functions name body hbody)⟩

theorem Tidy.forget {session : Session} (h : session.Tidy) (name : String) :
    (session.forget name).2.Tidy := by
  constructor
  · intro k hk
    change (session.values.erase name).get? (positionalName k) = none
    rw [Bindings.get?_erase, h.values k hk, ite_self]
  · intro other body hbody
    change (session.functions.erase name).get? other = some body at hbody
    rw [Bindings.get?_erase] at hbody
    split at hbody
    · cases hbody
    · exact h.functions other body hbody

/-- Requests that assign to no positional name leave none bound, whatever becomes of them. And
without any condition, a call leaves none of the names bound that its arguments had, whether the
body of the function returns or fails. -/
theorem positional_names_never_leak :
    (∀ (session : Session) (requests : List Request), session.Tidy →
      (∀ request ∈ requests, ∀ tokens, request.tokens = .ok tokens → SparesPositional tokens) →
      ∀ k, 0 < k → (session.performAll requests).values.get? (positionalName k) = none) ∧
    (∀ (settings : Settings) (inner : Eval Decimal) (name : String) (body : List Token)
      (actuals : List Decimal) (c : Context), name ≠ "abs" → name ≠ "pow" →
      c.functions.get? name = some body → ∀ k, 0 < k → k ≤ actuals.length →
      (Outcome.context (call settings inner name actuals c)).values.get? (positionalName k) =
        none) := by
  constructor
  · intro session requests htidy hrequests
    have hend : (session.performAll requests).Tidy :=
      performAll_keeps htidy
        (fun s request hmem tokens htokens hs =>
          hs.evaluateTokens (hrequests request hmem tokens htokens))
        fun s name hs => hs.forget name
    exact hend.values
  · intro settings inner name body actuals c habs hpow hbody k hpos hle
    rw [call_user habs hpow hbody, callBody_apply, Outcome.context_mapContext]
    exact get?_unbind_positional _ hpos hle

theorem tidy_new (settings : Settings) : (Session.new settings).Tidy where
  values _ _ := rfl
  functions _ _ h := by cases h

/-- A function whose body fails is defined and called: the session keeps no argument of the call,
and the context of the call keeps none either. -/
theorem failing_call_leaves_no_positional_name :
    (∀ k, 0 < k → ((Session.new Settings.default).performAll
      [.define "f" "$1 / 0", .line "f(2)"]).values.get? (positionalName k) = none) ∧
    (Outcome.context (call Settings.default (calculate Settings.default 3) "f" [Decimal.one]
      (Context.start [] .empty (Bindings.empty.insert "f" [.read "$2"])))).values.get?
        (positionalName 1) = none := by
  have hdefine : (Request.define "f" "$1 / 0").tokens.toOption = some (definition "f"
      [.read "$1", .symbol .div, .number Decimal.zero]) := by
    decide +kernel
  have hline : (Request.line "f(2)").tokens.toOption = some
      [.call "f", .symbol .parenOpen, .number (.finite false 2 0), .symbol .parenClose] := by
    decide +kernel
  refine ⟨positional_names_never_leak.1 _ _ (tidy_new Settings.default) ?_,
    positional_names_never_leak.2 _ _ _ _ _ _ (by decide) (by decide)
      (Bindings.get?_insert _ _ _ _) 1 Nat.one_pos (Nat.le_refl 1)⟩
  intro request hrequest tokens htokens k _ hmem
  have hname : positionalName k ≠ "f" := by
    intro h
    have hlist := congrArg String.toList h
    simp [positionalName] at hlist
  rcases List.mem_cons.1 hrequest with rfl | hrequest
  · rw [htokens] at hdefine
    cases hdefine
    simp [definition, hname] at hmem
  · obtain rfl := List.mem_singleton.1 hrequest
    rw [htokens] at hline
    cases hline
    simp at hmem

end Session

end DecimalCalculator
