import DecimalCalculator.Proofs.Evaluation.Finiteness
import DecimalCalculator.Proofs.Lexing.Tokens
import DecimalCalculator.Proofs.Session.Requests

/-!
# What lines come to

A session whose numbers are all finite never meets another number. Source texts write finite numbers
only, and every evaluation keeps what it stores finite, whether it succeeds or fails. What a line
comes to is therefore known beforehand (`lines_come_to_foreseen_ends`): a finite value, a failed
calculation, an overflow, or the end of the memory.

There is one exception. Settings may ask for more digits than a quotient can have; then a division
fails because of its precision, which is neither (`quotient_of_too_precise_session`).
-/
namespace DecimalCalculator

theorem Token.hasFiniteNumbers_of_ofSource {source : String} {ts : List Token}
    (h : ofSource source = .ok ts) : HasFiniteNumbers ts := by
  intro value hvalue
  obtain ⟨coefficient, places, rfl⟩ := (isSpellable_of_ofSource h).lexical _ hvalue
  rfl

/-- Kinds of failures of which none can come from a source text. -/
def unreachableKinds : List String :=
  ["AssertionError", "KeyError", "InvalidOperation", "IndexError", "TypeError", "AttributeError"]

theorem Settings.Foresees.kind_notMem {settings : Settings} {failure : Failure}
    (h : settings.Foresees failure) : failure.kind ∉ unreachableKinds := by
  cases h with
  | @calculation error _ => cases error <;> simp [Failure.kind, CalcError.kind, unreachableKinds]
  | overflow => decide
  | outOfMemory => decide
  | precisionLimit _ _ => decide
  | precisionWidth _ => decide

/-- Where the precision is one that a quotient can have, no failure is about it. -/
theorem Settings.Foresees.kind_of_le {settings : Settings} {failure : Failure}
    (h : settings.Foresees failure) (hle : settings.precision ≤ Decimal.maxPrecision) :
    failure.kind ∉ ["ValueError", "OverflowError"] := by
  have hmax : Decimal.maxPrecision ≤ 0x7FFFFFFFFFFFFFFF := by decide
  cases h with
  | @calculation error _ => cases error <;> simp [Failure.kind, CalcError.kind]
  | overflow => decide
  | outOfMemory => decide
  | precisionLimit hlt _ => omega
  | precisionWidth hlt => omega

/-- The report is that of a success, without a value or with a finite one, or that of a failure that
can be foreseen. -/
def LineReport.IsForeseen (settings : Settings) (report : LineReport) : Prop :=
  match report.status with
  | .success => report.failure = none ∧ ∀ value, report.value = some value → value.isFinite
  | .error => report.value = none ∧ ∃ failure, report.failure = some failure ∧
      settings.Foresees failure

theorem LineReport.admits_ofResult {settings : Settings} {result : Except Failure Decimal}
    (h : settings.Admits (·.isFinite) result) :
    (∃ report, ofResult settings.memory result = .ok report ∧ report.IsForeseen settings) ∨
      ofResult settings.memory result = .error (Fault.signal .outOfMemory) := by
  cases result with
  | ok value =>
    refine .inl ⟨_, rfl, rfl, ?_⟩
    rintro _ ⟨⟩
    exact h
  | error failure =>
    simp only [ofResult]
    split
    · exact .inl ⟨_, rfl, rfl, failure, rfl, h⟩
    · exact .inr rfl

namespace Session

open Eval

structure IsFinite (session : Session) : Prop where
  values : session.values.All (·.isFinite)
  functions : session.functions.All HasFiniteNumbers

theorem IsFinite.evaluateTokens {session : Session} (h : session.IsFinite) {tokens : List Token}
    (htokens : HasFiniteNumbers tokens) :
    session.settings.Admits (·.isFinite) (session.evaluateTokens tokens).result ∧
      (session.evaluateTokens tokens).session.IsFinite := by
  obtain ⟨hresult, hcontext⟩ := calculate_keepsFinite session.settings
    session.settings.expressionLimit (Context.start tokens session.values session.functions)
    ⟨htokens, h.values, h.functions⟩
  exact ⟨hresult, hcontext.values, hcontext.functions⟩

theorem IsFinite.forget {session : Session} (h : session.IsFinite) (name : String) :
    (session.forget name).2.IsFinite :=
  ⟨h.values.erase name, h.functions.erase name⟩

theorem hasFiniteNumbers_definition (name : String) {body : List Token}
    (h : HasFiniteNumbers body) : HasFiniteNumbers (definition name body) := by
  intro value hvalue
  simp only [definition, List.cons_append, List.mem_cons, List.mem_append, reduceCtorEq, false_or,
    List.not_mem_nil, or_false] at hvalue
  exact h value hvalue

theorem Request.hasFiniteNumbers {request : Request} {tokens : List Token}
    (h : request.tokens = .ok tokens) : HasFiniteNumbers tokens := by
  cases request with
  | line text => exact Token.hasFiniteNumbers_of_ofSource h
  | define name body =>
    cases hbody : Token.ofSource body with
    | ok ts =>
      rw [Request.tokens, hbody] at h
      cases h
      exact hasFiniteNumbers_definition name (Token.hasFiniteNumbers_of_ofSource hbody)
    | error failure =>
      rw [Request.tokens, hbody] at h
      cases h
  | forget name =>
    cases h
    exact fun _ hvalue => absurd hvalue (by simp)

theorem IsFinite.performAll {session : Session} (h : session.IsFinite) (requests : List Request) :
    (session.performAll requests).IsFinite :=
  performAll_keeps h
    (fun _ _ _ _ htokens hs => (hs.evaluateTokens (Request.hasFiniteNumbers htokens)).2)
    fun _ name hs => hs.forget name

theorem IsFinite.evaluate {session : Session} (h : session.IsFinite) (text : String) :
    session.settings.Admits (·.isFinite) (session.evaluate text).result := by
  cases htokens : Token.ofSource text with
  | ok tokens =>
    rw [evaluate_ok htokens]
    exact (h.evaluateTokens (Token.hasFiniteNumbers_of_ofSource htokens)).1
  | error failure =>
    rw [evaluate_error htokens]
    obtain ⟨message, position, rfl⟩ := Token.ofSource_error htokens
    exact .calculation (by simp)

/-- The report of a line, or that the message of a failure does not fit into the memory. -/
theorem IsFinite.handleLine {session : Session} (h : session.IsFinite) (text : String) :
    (∃ report, (session.handleLine text).result = .ok report ∧
      report.IsForeseen session.settings) ∨
      (session.handleLine text).result = .error (Fault.signal .outOfMemory) := by
  unfold Session.handleLine
  split
  · exact .inl ⟨_, rfl, rfl, fun _ hvalue => by cases hvalue⟩
  · exact LineReport.admits_ofResult (h.evaluate text)

/-- After any requests, a session whose numbers were all finite still stores finite numbers only.
Whatever line it is given then succeeds with a finite value, or without a value if it is blank, or
fails in a way that can be foreseen, and so with none of the kinds that are listed as unreachable;
or else the message of its failure does not fit into the memory. Failures about the precision need
settings that ask for more digits than a quotient can have. -/
theorem lines_come_to_foreseen_ends (session : Session) (requests : List Request)
    (h : session.IsFinite) :
    (session.performAll requests).IsFinite ∧
    (∀ text, (∃ report, ((session.performAll requests).handleLine text).result = .ok report ∧
        report.IsForeseen session.settings) ∨
      ((session.performAll requests).handleLine text).result =
        .error (Fault.signal .outOfMemory)) ∧
    ∀ text report failure,
      ((session.performAll requests).handleLine text).result = .ok report →
      report.failure = some failure →
      failure.kind ∉ unreachableKinds ∧
        (session.settings.precision ≤ Decimal.maxPrecision →
          failure.kind ∉ ["ValueError", "OverflowError"]) := by
  have hfinite := h.performAll requests
  have hlines (text : String) := hfinite.handleLine text
  rw [settings_performAll] at hlines
  refine ⟨hfinite, hlines, fun text report failure hreport hfailure => ?_⟩
  have hforeseen : session.settings.Foresees failure := by
    rcases hlines text with ⟨other, hother, hends⟩ | hmemory
    · rw [hreport] at hother
      cases hother
      unfold LineReport.IsForeseen at hends
      split at hends
      · rw [hends.1] at hfailure
        cases hfailure
      · obtain ⟨-, found, hfound, hforeseen⟩ := hends
        rw [hfailure] at hfound
        cases hfound
        exact hforeseen
    · rw [hreport] at hmemory
      cases hmemory
  exact ⟨hforeseen.kind_notMem, hforeseen.kind_of_le⟩

/-- A session that knows the number 1 as `x` and a third of a number as `third`. -/
def thirds : Session where
  settings := Settings.default
  values := Bindings.empty.insert "x" Decimal.one
  functions := Bindings.empty.insert "third"
    [.read "$1", .symbol .div, .number (.finite false 3 0)]

/-- The third that the session stores is finite, and dividing it by zero fails in a way that can be
foreseen. -/
theorem thirds_come_to_foreseen_ends :
    thirds.IsFinite ∧
    (∃ value, (thirds.performAll [.line "y = third(x)"]).values.get? "y" = some value ∧
      value.isFinite) ∧
    ∃ report, ((thirds.performAll [.line "y = third(x)"]).handleLine "y / 0").result = .ok report ∧
      report.failure = some CalcError.divideByZero ∧ report.IsForeseen Settings.default := by
  have hthirds : thirds.IsFinite := by
    have hone : Decimal.one.isFinite := rfl
    have hbody : HasFiniteNumbers [.read "$1", .symbol .div, .number (.finite false 3 0)] := by
      intro value hvalue
      simp only [List.mem_cons, reduceCtorEq, Token.number.injEq, false_or, List.not_mem_nil,
        or_false] at hvalue
      exact hvalue ▸ rfl
    exact ⟨Bindings.All.insert (P := (Decimal.isFinite ·)) (Bindings.all_empty _) hone "x",
      Bindings.All.insert (Bindings.all_empty _) hbody "third"⟩
  obtain ⟨hfinite, hlines, -⟩ := lines_come_to_foreseen_ends thirds [.line "y = third(x)"] hthirds
  have hstored : ((thirds.performAll [.line "y = third(x)"]).values.get? "y").isSome := by
    decide +kernel
  have hreport : (((thirds.performAll [.line "y = third(x)"]).handleLine
      "y / 0").result.toOption.bind LineReport.failure) = some (.calculation .divideByZero) := by
    decide +kernel
  obtain ⟨value, hvalue⟩ := Option.isSome_iff_exists.1 hstored
  refine ⟨hthirds, ⟨value, hvalue, hfinite.values "y" value hvalue⟩, ?_⟩
  rcases hlines "y / 0" with ⟨report, hresult, hends⟩ | hmemory
  · rw [hresult] at hreport
    exact ⟨report, hresult, hreport, hends⟩
  · rw [hmemory] at hreport
    cases hreport

/-- Settings that ask for one digit more than a quotient can have. -/
def tooPrecise : Settings where
  toMachine := .default
  precision := 1000000000000000000
  maxDepth := depthCeiling
  precision_pos := Nat.succ_pos 999999999999999999
  maxDepth_pos := Settings.default.maxDepth_pos
  maxDepth_le := Nat.le_refl _

theorem isFinite_new (settings : Settings) : (Session.new settings).IsFinite :=
  ⟨Bindings.all_empty _, Bindings.all_empty _⟩

/-- A quotient of finite numbers fails with neither a failed calculation nor an overflow nor the end
of the memory. -/
theorem quotient_of_too_precise_session :
    (Session.new tooPrecise).IsFinite ∧
    ∃ failure, ((Session.new tooPrecise).evaluate "1/4").result = .error failure ∧
      failure.kind = "ValueError" ∧ (∀ error : CalcError, failure ≠ error) ∧
      failure ≠ Fault.signal .overflow ∧ failure ≠ Fault.signal .outOfMemory := by
  refine ⟨isFinite_new tooPrecise, Fault.precisionLimit, ?_, rfl, by simp, by simp, by simp⟩
  decide +kernel

end Session

end DecimalCalculator
