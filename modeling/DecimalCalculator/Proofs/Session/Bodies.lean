import DecimalCalculator.Proofs.Evaluation.Consumption
import DecimalCalculator.Proofs.Session.Requests

/-!
# The bodies of a session

A session that begins without functions comes to know closed bodies only. Definitions capture
nothing else, be they lines, requests of their own or parts of other bodies, and forgetting a name
adds nothing. A call that returns has therefore evaluated the whole body of the function
(`bodies_are_taken_whole`).
-/
namespace DecimalCalculator

namespace Session

open Eval

/-- In the bodies of all functions parentheses match, and separators stand inside them. -/
def HasClosedBodies (session : Session) : Prop :=
  ∀ name body, session.functions.get? name = some body → IsClosed body

theorem HasClosedBodies.evaluateTokens {session : Session} (h : session.HasClosedBodies)
    (tokens : List Token) : (session.evaluateTokens tokens).session.HasClosedBodies :=
  (stable_hasClosedBodies session.settings).calculate session.settings.expressionLimit
    (Context.start tokens session.values session.functions) h

theorem HasClosedBodies.forget {session : Session} (h : session.HasClosedBodies) (name : String) :
    (session.forget name).2.HasClosedBodies :=
  Bindings.All.erase h name

theorem HasClosedBodies.performAll {session : Session} (h : session.HasClosedBodies)
    (requests : List Request) : (session.performAll requests).HasClosedBodies :=
  performAll_keeps h (fun _ _ _ tokens _ hs => hs.evaluateTokens tokens)
    fun _ name hs => hs.forget name

/-- The session is what a session without functions came to by some requests. -/
def BeganWithoutFunctions (session : Session) : Prop :=
  ∃ (start : Session) (requests : List Request),
    start.functions = .empty ∧ session = start.performAll requests

theorem BeganWithoutFunctions.hasClosedBodies {session : Session}
    (h : session.BeganWithoutFunctions) : session.HasClosedBodies := by
  obtain ⟨start, requests, hempty, rfl⟩ := h
  refine HasClosedBodies.performAll (fun name body hbody => ?_) requests
  rw [hempty] at hbody
  exact Bindings.all_empty IsClosed name body hbody

/-- On every level and in every context, what has been taken when an evaluation returns is closed,
and at least one token. In a session that began without functions every body is closed, and whatever
the session evaluates, and however deeply a call is nested in it, a body whose evaluation returns
has been taken to its end. -/
theorem bodies_are_taken_whole :
    (∀ (settings : Settings) (bound : Nat),
      AlwaysTakes (calculate settings bound) ∧
      (∀ tiers, tiers ⊆ levels →
        AlwaysTakes (cascade settings (calculate settings bound) tiers)) ∧
      AlwaysTakes (operand settings (calculate settings bound)) ∧
      AlwaysTakes (complemented settings (calculate settings bound)) ∧
      AlwaysTakes (primary settings (calculate settings bound)) ∧
      AlwaysTakes (atom settings (calculate settings bound))) ∧
    (∀ session : Session, session.BeganWithoutFunctions →
      session.HasClosedBodies ∧
      ∀ (tokens : List Token) (path : List Place) (bound : Nat) (c d d' : Context) (a : Decimal),
        Visits session.settings session.settings.expressionLimit
          (Context.start tokens session.values session.functions) path (bound + 1) c →
        Nests session.settings (calculate session.settings bound) c .body d →
        calculate session.settings bound d = .ok a d' → d'.tokens = []) := by
  constructor
  · intro settings bound
    have hinner := calculate_takes settings bound
    exact ⟨hinner, fun tiers htiers => cascade_takes hinner htiers, operand_takes hinner,
      complemented_takes hinner, primary_takes hinner, atom_takes hinner⟩
  · intro session hsession
    have hclosed := hsession.hasClosedBodies
    refine ⟨hclosed, fun tokens path bound c d d' a hc hd hvalue => ?_⟩
    exact hd.body_taken (hc.hasClosedBodies hclosed) hvalue

/-- The session that has defined `f = ((1) + $1)`. -/
def successorSession : Session :=
  (Session.new Settings.default).performAll [.line "f = ((1) + $1)"]

def successorCall : Context :=
  Context.start [.call "f", .symbol .parenOpen, .number (.finite false 2 0), .symbol .parenClose]
    successorSession.values successorSession.functions

def successorArgument : Context :=
  Outcome.context (arguments (calculate Settings.default 444)
    {successorCall with tokens := [.number (.finite false 2 0), .symbol .parenClose]})

/-- The body of `f` is closed, its call is evaluated in a context of its own, and what that leaves
has no tokens. -/
theorem body_of_successor_is_taken_whole :
    IsClosed [.symbol .parenOpen, .number Decimal.one, .symbol .parenClose, .symbol .add,
      .read "$1"] ∧
    ∃ d d', Nests Settings.default (calculate Settings.default 444) successorCall .body d ∧
      calculate Settings.default 444 d = .ok (.finite false 3 0) d' ∧ d'.tokens = [] := by
  have hsession : successorSession.BeganWithoutFunctions :=
    ⟨Session.new Settings.default, [.line "f = ((1) + $1)"], rfl, rfl⟩
  have hsettings : successorSession.settings = Settings.default := settings_performAll _ _
  obtain ⟨hclosed, hcalls⟩ := bodies_are_taken_whole.2 successorSession hsession
  have hbody : successorSession.functions.get? "f" = some [.symbol .parenOpen, .number Decimal.one,
      .symbol .parenClose, .symbol .add, .read "$1"] := by
    decide +kernel
  have hargument : arguments (calculate Settings.default 444)
      {successorCall with tokens := [.number (.finite false 2 0), .symbol .parenClose]} =
        .ok [.finite false 2 0] successorArgument :=
    Outcome.eq_ok_of_toOption (by decide +kernel)
  have hknown : successorArgument.functions.get? "f" = some [.symbol .parenOpen,
      .number Decimal.one, .symbol .parenClose, .symbol .add, .read "$1"] := by
    decide +kernel
  have hlevel : LevelAt Settings.default (calculate Settings.default 444) levels successorCall []
      successorCall :=
    .operand (.first _) <| .operand (.first _) <| .operand (.first _) <|
      .operand (.first _) <| .operand (.first _) <| .operand (.first _) <| .here [] _
  have hnests : Nests Settings.default (calculate Settings.default 444) successorCall .body
      (successorArgument.enterBody "f" _ [.finite false 2 0]) :=
    ⟨successorCall, ⟨by decide, hlevel⟩,
      .body rfl hargument (by decide) (by decide) hknown⟩
  have hvalue : calculate Settings.default 444 (successorArgument.enterBody "f" [.symbol .parenOpen,
      .number Decimal.one, .symbol .parenClose, .symbol .add, .read "$1"] [.finite false 2 0]) =
        .ok (.finite false 3 0) _ :=
    Outcome.eq_ok_of_toOption (by decide +kernel)
  rw [hsettings] at hcalls
  exact ⟨hclosed "f" _ hbody, _, _, hnests, hvalue,
    hcalls _ [] 444 successorCall _ _ _ (.here 445 successorCall) hnests hvalue⟩

end Session

end DecimalCalculator
