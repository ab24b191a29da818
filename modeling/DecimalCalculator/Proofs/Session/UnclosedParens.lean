import DecimalCalculator.Proofs.Evaluation.Capturing
import DecimalCalculator.Proofs.Evaluation.Contracts
import DecimalCalculator.Proofs.Lexing.Tokens
import DecimalCalculator.Proofs.Session.Bodies

/-!
# Unclosed parentheses

That a parenthesis is not closed is noticed in two places: at the end of arguments or of a group,
and in the capture of a definition. Both have read to the end of their tokens with a parenthesis
open. An evaluation whose tokens close every parenthesis, those that are open before them and those
that they open, therefore never meets this failure (`Contract.balanced`). In a session that began
without functions this is so for every body, since such bodies are closed, and it is so for every
line in which each opening parenthesis has its match.

The parentheses that stay open are found by counting (`openAtEnd`), where a parenthesis that closes
nothing does not count. Some stay open if and only if behind one of them no beginning of the tokens
closes more than it opens (`openAtEnd_pos_iff`).
-/
namespace DecimalCalculator

/-- The sequence contains an opening parenthesis and no parenthesis that closes it. -/
def HasUnclosedParen (ts : List Token) : Prop :=
  ∃ front rest, ts = front ++ .symbol .parenOpen :: rest ∧
    ∀ start, start <+: rest → 0 ≤ balance start

def openAtEnd (opened : Nat) (ts : List Token) : Nat :=
  ts.foldl Token.openAfter opened

/-! ## Counting -/

@[simp] theorem openAtEnd_nil (opened : Nat) : openAtEnd opened [] = opened := rfl

theorem openAtEnd_cons (opened : Nat) (t : Token) (ts : List Token) :
    openAtEnd opened (t :: ts) = openAtEnd (t.openAfter opened) ts := rfl

theorem Token.openAfter_eq {opened next : Nat} {t : Token} (h : t.nest opened = some next) :
    t.openAfter opened = next := by
  unfold Token.nest at h
  unfold Token.openAfter
  split at h <;> grind

/-- Behind tokens that are in place the count goes on. -/
theorem openAtEnd_append {opened next : Nat} {front : List Token}
    (h : nesting opened front = some next) (rest : List Token) :
    openAtEnd opened (front ++ rest) = openAtEnd next rest := by
  induction front generalizing opened with
  | nil =>
    cases h
    rfl
  | cons t front ih =>
    rw [nesting_cons] at h
    obtain ⟨after, hafter, hrest⟩ := Option.bind_eq_some_iff.1 h
    rw [List.cons_append, openAtEnd_cons, Token.openAfter_eq hafter]
    exact ih hrest

theorem IsClosed.openAtEnd {ts : List Token} (h : IsClosed ts) :
    DecimalCalculator.openAtEnd 0 ts = 0 := by
  have happend := openAtEnd_append h []
  rwa [List.append_nil] at happend

theorem hasUnclosedParen_cons {t : Token} {ts : List Token} :
    HasUnclosedParen (t :: ts) ↔
      t = .symbol .parenOpen ∧ (∀ start, start <+: ts → 0 ≤ balance start) ∨
        HasUnclosedParen ts := by
  constructor
  · rintro ⟨front, rest, heq, hrest⟩
    cases front with
    | nil =>
      obtain ⟨rfl, rfl⟩ := List.cons.inj heq
      exact .inl ⟨rfl, hrest⟩
    | cons u front =>
      obtain ⟨rfl, rfl⟩ := List.cons.inj heq
      exact .inr ⟨front, rest, rfl, hrest⟩
  · rintro (⟨rfl, hrest⟩ | ⟨front, rest, rfl, hrest⟩)
    · exact ⟨[], ts, rfl, hrest⟩
    · exact ⟨t :: front, rest, rfl, hrest⟩

theorem forall_prefix_cons {P : List Token → Prop} {t : Token} {ts : List Token} :
    (∀ start, start <+: t :: ts → P start) ↔ P [] ∧ ∀ start, start <+: ts → P (t :: start) := by
  constructor
  · intro h
    exact ⟨h [] List.nil_prefix, fun start hstart => h _ (List.cons_prefix_cons.2 ⟨rfl, hstart⟩)⟩
  · rintro ⟨hnil, hcons⟩ start hstart
    rcases List.prefix_cons_iff.1 hstart with rfl | ⟨more, rfl, hmore⟩
    · exact hnil
    · exact hcons more hmore

theorem Token.openAfter_pos {opened : Nat} (hpos : 0 < opened) (t : Token) :
    (t.openAfter opened : Int) = opened + balance [t] := by
  unfold Token.openAfter
  split
  · simp
  · rw [balance_close]
    omega
  · next hopen hclose => simp [balance_other hopen hclose]

theorem Token.openAfter_zero {t : Token} (h : t ≠ .symbol .parenOpen) : t.openAfter 0 = 0 := by
  unfold Token.openAfter
  split
  · exact absurd rfl h
  · rfl
  · rfl

/-- The count stays above zero behind a token if it was above zero before, or if the token opens the
first parenthesis. -/
theorem forall_prefix_openAfter (opened : Nat) (t : Token) (ts : List Token) :
    (∀ start, start <+: ts → 0 < (t.openAfter opened : Int) + balance start) ↔
      (0 < opened ∧ ∀ start, start <+: ts → 0 < (opened : Int) + balance (t :: start)) ∨
        t = .symbol .parenOpen ∧ ∀ start, start <+: ts → 0 ≤ balance start := by
  by_cases hpos : 0 < opened
  · have hcount := Token.openAfter_pos hpos t
    have hsame (start : List Token) : (t.openAfter opened : Int) + balance start =
        opened + balance (t :: start) := by
      rw [balance_cons, hcount, Int.add_assoc]
    simp only [hsame, hpos, true_and]
    refine ⟨.inl, ?_⟩
    rintro (h | ⟨rfl, h⟩)
    · exact h
    · intro start hstart
      have hnonneg := h start hstart
      rw [balance_cons, balance_open]
      omega
  · obtain rfl : opened = 0 := by omega
    simp only [Nat.lt_irrefl, false_and, false_or]
    by_cases hopen : t = .symbol .parenOpen
    · subst hopen
      have hone (start : List Token) :
          0 < ((Token.symbol .parenOpen).openAfter 0 : Int) + balance start ↔
            0 ≤ balance start := by
        simp only [Token.openAfter]
        omega
      simp only [hone, true_and]
    · refine iff_of_false (fun h => ?_) fun h => hopen h.1
      have hempty := h [] List.nil_prefix
      rw [Token.openAfter_zero hopen] at hempty
      simp at hempty

/-- A parenthesis stays open if one of those before the sequence is never closed, or one of the
sequence. -/
theorem openAtEnd_pos_iff {opened : Nat} {ts : List Token} :
    0 < openAtEnd opened ts ↔
      (∀ start, start <+: ts → 0 < opened + balance start) ∨ HasUnclosedParen ts := by
  induction ts generalizing opened with
  | nil =>
    have hnone : ¬HasUnclosedParen [] := fun ⟨front, rest, heq, _⟩ => by simp at heq
    simp [hnone]
  | cons t ts ih =>
    rw [openAtEnd_cons, ih, hasUnclosedParen_cons, forall_prefix_cons, balance_nil,
      forall_prefix_openAfter, ← or_assoc]
    simp

/-! ## Evaluations -/

/-- All bodies are closed, and the tokens to come close all parentheses: those that are open and
those that they open. -/
structure Context.IsBalanced (opened : Nat) (c : Context) : Prop where
  bodies : c.HasClosedBodies
  tokens : openAtEnd opened c.tokens = 0

namespace Context.IsBalanced

variable {settings : Settings} {opened : Nat} {c : Context}

theorem drop (h : c.IsBalanced opened) {front rest : List Token}
    (htokens : c.tokens = front ++ rest) (hfront : nesting opened front = some opened) :
    {c with tokens := rest}.IsBalanced opened where
  bodies := h.bodies
  tokens := by rw [← openAtEnd_append hfront rest, ← htokens, h.tokens]

theorem enterGroup (h : c.IsBalanced opened) {rest : List Token}
    (htokens : c.tokens = .symbol .parenOpen :: rest) :
    {c with tokens := rest}.enterGroup.IsBalanced (opened + 1) where
  bodies := h.bodies
  tokens := by
    have hzero := h.tokens
    rwa [htokens] at hzero

theorem leaveGroup (h : c.IsBalanced (opened + 1)) {rest : List Token}
    (htokens : c.tokens = .symbol .parenClose :: rest) :
    {c.leaveGroup with tokens := rest}.IsBalanced opened where
  bodies := h.bodies
  tokens := by
    have hzero := h.tokens
    rwa [htokens] at hzero

theorem enterBody (h : c.IsBalanced opened) {name : String} {body : List Token}
    (hbody : c.functions.get? name = some body) (actuals : List Decimal) :
    (c.enterBody name body actuals).IsBalanced 0 where
  bodies := h.bodies
  tokens := (h.bodies name body hbody).openAtEnd

theorem leaveBody (h : c.IsBalanced opened) {d : Context} (hd : d.IsBalanced 0) (count : Nat) :
    (c.leaveBody count d).IsBalanced opened where
  bodies := hd.bodies
  tokens := h.tokens

theorem define (h : c.IsBalanced opened) {name : String} {rest body after : List Token}
    (htokens : c.tokens = .assign name :: .symbol .parenOpen :: rest)
    (hcap : capture settings.maxDepth 1 rest = (.ok body, after)) :
    ({c with tokens := after, functions := c.functions.insert name body}.record
      (.define name body.length)).IsBalanced opened := by
  obtain ⟨-, hbody⟩ := capture_eq_ok_iff.1 hcap
  obtain ⟨front, hsplit, -, hclosed⟩ := exists_isClosed_of_capture name hcap
  have hafter := h.drop (htokens.trans hsplit) (hclosed.nesting opened)
  exact ⟨hafter.bodies.insert name hbody.1, hafter.tokens⟩

/-- The tokens behind the parenthesis that opens a definition close it. -/
theorem capture_ne_unclosed (h : c.IsBalanced opened) {name : String} {rest after : List Token}
    (htokens : c.tokens = .assign name :: .symbol .parenOpen :: rest) :
    capture settings.maxDepth 1 rest ≠ (.error .unclosedParen, after) := by
  intro hcap
  cases capture_eq_iff.1 hcap with
  | unclosed hrest =>
    have hzero : openAtEnd (opened + 1) rest = 0 := by
      have hzero := h.tokens
      rwa [htokens] at hzero
    refine absurd (openAtEnd_pos_iff.2 (.inl fun start hstart => ?_)) (Nat.not_lt.2 hzero.le)
    have hnonneg := hrest.opened start hstart
    omega

end Context.IsBalanced

theorem satisfies_ne_unclosedParen {x : Except Failure Decimal}
    (hx : Arithmetic.FailsArithmetically x) :
    Satisfies (fun _ => True) (fun failure => failure ≠ CalcError.unclosedParen) x := by
  refine satisfies_of_failsArithmetically ?_ hx
  rintro _ h rfl
  exact h

/-- Where all parentheses are closed, no evaluation misses one. -/
def Contract.balanced (settings : Settings) : Contract settings where
  inside opened c := c.IsBalanced opened
  left _ := True
  value _ := True
  failure failure := failure ≠ CalcError.unclosedParen
  left_of_inside _ := trivial
  left_drop _ _ := trivial
  left_leaveGroup _ := trivial
  left_leaveBody _ _ _ := trivial
  drop h := h.drop
  enterGroup h := h.enterGroup
  leaveGroup h := h.leaveGroup
  enterBody _ _ _ _ h hbody _ := h.enterBody hbody _
  leaveBody count h hd := h.leaveBody hd count
  assign _ h _ := ⟨h.bodies, h.tokens⟩
  define h := h.define
  number _ _ := trivial
  known _ _ := trivial
  zero := trivial
  neg _ := trivial
  abs _ := trivial
  power _ _ := satisfies_ne_unclosedParen (Arithmetic.failsArithmetically_power _ _ _ _)
  complements _ _ := satisfies_ne_unclosedParen (Arithmetic.failsArithmetically_complements _ _)
  factorial _ := satisfies_ne_unclosedParen (Arithmetic.failsArithmetically_factorial _ _)
  apply _ _ _ _ := satisfies_ne_unclosedParen (Arithmetic.failsArithmetically_apply _ _ _ _ _ _)
  ofLocal h := by
    rintro ⟨⟩
    exact h
  uncaptured h htokens hcap := by
    rintro ⟨⟩
    exact h.capture_ne_unclosed htokens hcap
  unclosed h htokens := by
    have hzero := h.tokens
    rw [htokens] at hzero
    cases hzero
  tooDeep _ _ := by simp
  outOfBound := by simp

namespace Eval

/-- Where all parentheses are closed, no evaluation misses one, whatever its bound. -/
theorem calculate_ne_unclosedParen {settings : Settings} {opened : Nat} {c : Context}
    (hc : c.IsBalanced opened) (bound : Nat) :
    Outcome.result (calculate settings bound c) ≠ .error CalcError.unclosedParen := by
  have hhonoured := honours_calculate (.balanced settings) bound opened c hc
  generalize calculate settings bound c = o at hhonoured
  cases hhonoured with
  | ok _ _ => nofun
  | error hfailure _ =>
    intro h
    cases h
    exact hfailure rfl

end Eval

/-- A report shows the failure that it was made from. -/
theorem LineReport.eq_error_of_failure {memory : Memory} {result : Except Failure Decimal}
    {report : LineReport} {failure : Failure} (h : LineReport.ofResult memory result = .ok report)
    (hfailure : report.failure = some failure) : result = .error failure := by
  cases result with
  | ok value =>
    cases h
    cases hfailure
  | error other =>
    rw [LineReport.ofResult] at h
    split at h
    · cases h
      cases hfailure
      rfl
    · cases h

namespace Session

open Eval

/-- Tokens in which every parenthesis is closed are evaluated without missing one. -/
theorem evaluateTokens_ne_unclosedParen {session : Session} (hclosed : session.HasClosedBodies)
    {tokens : List Token} (h : ¬HasUnclosedParen tokens) :
    (session.evaluateTokens tokens).result ≠ .error CalcError.unclosedParen := by
  have hzero : openAtEnd 0 tokens = 0 := by
    refine Nat.eq_zero_of_not_pos fun hpos => ?_
    rcases openAtEnd_pos_iff.1 hpos with hbefore | hunclosed
    · exact absurd (hbefore [] List.nil_prefix) (by decide)
    · exact h hunclosed
  have hbalanced : (Context.start tokens session.values session.functions).IsBalanced 0 :=
    ⟨hclosed, hzero⟩
  exact calculate_ne_unclosedParen hbalanced session.settings.expressionLimit

/-- In a session that began without functions, a line that is refused for an unclosed parenthesis
has one among its own tokens, and no body of a function is refused for one, however deeply its call
is nested. -/
theorem unclosedParen_is_on_the_line {session : Session}
    (hsession : session.BeganWithoutFunctions) :
    (∀ line report, (session.handleLine line).result = .ok report →
      report.failure = some CalcError.unclosedParen →
      ∃ tokens, Token.ofSource line = .ok tokens ∧ HasUnclosedParen tokens) ∧
    ∀ (tokens : List Token) (path : List Place) (bound : Nat) (c d : Context),
      Visits session.settings session.settings.expressionLimit
        (Context.start tokens session.values session.functions) path (bound + 1) c →
      Nests session.settings (calculate session.settings bound) c .body d →
      Outcome.result (calculate session.settings bound d) ≠ .error CalcError.unclosedParen := by
  have hclosed := hsession.hasClosedBodies
  constructor
  · intro line report hreport hfailure
    by_cases hblank : Text.isBlankLine line
    · rw [handleLine, if_pos hblank] at hreport
      cases hreport
      cases hfailure
    · rw [handleLine_result (Bool.eq_false_iff.2 hblank)] at hreport
      have hresult := LineReport.eq_error_of_failure hreport hfailure
      cases htokens : Token.ofSource line with
      | ok tokens =>
        rw [evaluate_ok htokens] at hresult
        refine ⟨tokens, rfl, not_not.1 fun h => ?_⟩
        exact evaluateTokens_ne_unclosedParen hclosed h hresult
      | error failure =>
        obtain ⟨message, place, rfl⟩ := Token.ofSource_error htokens
        rw [evaluate_error htokens] at hresult
        cases hresult
  · intro tokens path bound c d hc hd
    have hR := stable_hasClosedBodies session.settings
    obtain ⟨e, he, name, body, actuals, hbody, rfl⟩ := hd.leads hR (hR.calculate bound)
    have hbodies : e.HasClosedBodies := he (hc.hasClosedBodies hclosed)
    have hbalanced : (e.enterBody name body actuals).IsBalanced 0 :=
      ⟨hbodies, (hbodies name body hbody).openAtEnd⟩
    exact calculate_ne_unclosedParen hbalanced bound

/-- The session that has defined `f = ((1))`. -/
def groupSession : Session :=
  (Session.new Settings.default).performAll [.line "f = ((1))"]

def groupCall : Context :=
  Context.start [.call "f", .symbol .parenOpen, .symbol .parenClose] groupSession.values
    groupSession.functions

/-- The group around the call in `(f()` is not closed, and the body of `f` is not to blame. -/
theorem unclosedGroup_is_on_the_line :
    groupSession.BeganWithoutFunctions ∧
      (∃ report, (groupSession.handleLine "(f()").result = .ok report ∧
        report.failure = some CalcError.unclosedParen) ∧
      (∃ tokens, Token.ofSource "(f()" = .ok tokens ∧ HasUnclosedParen tokens) ∧
      ∃ d, Nests Settings.default (calculate Settings.default 444) groupCall .body d ∧
        Outcome.result (calculate Settings.default 444 d) ≠ .error CalcError.unclosedParen := by
  have hsession : groupSession.BeganWithoutFunctions :=
    ⟨Session.new Settings.default, [.line "f = ((1))"], rfl, rfl⟩
  have hsettings : groupSession.settings = Settings.default := settings_performAll _ _
  have hreport : (groupSession.handleLine "(f()").result =
      .ok ⟨.error, none, some "Unclosed parenthesis", some CalcError.unclosedParen⟩ := by
    decide +kernel
  have hbody : groupCall.functions.get? "f" =
      some [.symbol .parenOpen, .number Decimal.one, .symbol .parenClose] := by
    decide +kernel
  obtain ⟨hline, hcalls⟩ := unclosedParen_is_on_the_line hsession
  have hlevel : LevelAt Settings.default (calculate Settings.default 444) levels groupCall []
      groupCall :=
    .operand (.first _) <| .operand (.first _) <| .operand (.first _) <|
      .operand (.first _) <| .operand (.first _) <| .operand (.first _) <| .here [] _
  have hnests : Nests Settings.default (calculate Settings.default 444) groupCall .body
      (Context.enterBody {groupCall with tokens := []} "f" _ []) :=
    ⟨groupCall, ⟨by decide, hlevel⟩,
      .body rfl (arguments_empty rfl) (by decide) (by decide) hbody⟩
  rw [hsettings] at hcalls
  exact ⟨hsession, ⟨_, hreport, rfl⟩, hline _ _ hreport rfl, _, hnests,
    hcalls _ [] 444 groupCall _ (.here 445 groupCall) hnests⟩

end Session

end DecimalCalculator
