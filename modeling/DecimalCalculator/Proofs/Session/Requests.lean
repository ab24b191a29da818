import DecimalCalculator.Proofs.Evaluation.Preservation
import DecimalCalculator.Session

/-!
# Requests to a session

A session is asked to evaluate lines, to define functions and to forget names. Whatever happens to
a request, the session goes on from the state that it left, so a run is a fold over the requests.

A line and a definition change the state only by the evaluation of one token sequence, and only if
they have tokens at all. What evaluations keep and forgetting keeps is therefore kept by every run
(`performAll_keeps`).
-/
namespace DecimalCalculator.Session

inductive Request where
  | line (text : String)
  | define (name body : String)
  | forget (name : String)
  deriving DecidableEq, Repr

/-- The tokens that a request makes the session evaluate. -/
def Request.tokens : Request → Except Failure (List Token)
  | line text => Token.ofSource text
  | define name body => (Token.ofSource body).map (definition name)
  | forget _ => .ok []

def perform (session : Session) : Request → Session
  | .line text => (session.handleLine text).session
  | .define name body => (session.define name body).session
  | .forget name => (session.forget name).2

def performAll (session : Session) (requests : List Request) : Session :=
  requests.foldl perform session

def reports (session : Session) : List String → List (Except Failure LineReport)
  | [] => []
  | text :: texts =>
    (session.handleLine text).result :: (session.handleLine text).session.reports texts

theorem handleLine_of_blank {text : String} (h : Text.isBlankLine text = true)
    (session : Session) : (session.handleLine text).session = session := by
  rw [handleLine, if_pos h]

theorem handleLine_of_not_blank {text : String} (h : Text.isBlankLine text = false)
    (session : Session) :
    (session.handleLine text).session = (session.evaluate text).session := by
  rw [handleLine, h]
  rfl

theorem handleLine_result {text : String} (h : Text.isBlankLine text = false)
    (session : Session) : (session.handleLine text).result =
      LineReport.ofResult session.settings.memory (session.evaluate text).result := by
  rw [handleLine, h]
  rfl

theorem evaluate_ok {text : String} {tokens : List Token} (h : Token.ofSource text = .ok tokens)
    (session : Session) : session.evaluate text = session.evaluateTokens tokens := by
  rw [Session.evaluate, h]

theorem evaluate_error {text : String} {failure : Failure}
    (h : Token.ofSource text = .error failure) (session : Session) :
    session.evaluate text = ⟨.error failure, session, []⟩ := by
  rw [Session.evaluate, h]

theorem define_ok {name body : String} {tokens : List Token}
    (h : Token.ofSource body = .ok tokens) (session : Session) :
    (session.define name body).session =
      (session.evaluateTokens (definition name tokens)).session := by
  rw [Session.define, h]

theorem define_error {name body : String} {failure : Failure}
    (h : Token.ofSource body = .error failure) (session : Session) :
    (session.define name body).session = session := by
  rw [Session.define, h]

/-- A request changes nothing, evaluates its tokens, or forgets a name. -/
theorem perform_cases (session : Session) (request : Request) :
    session.perform request = session ∨
    (∃ tokens, request.tokens = .ok tokens ∧
      session.perform request = (session.evaluateTokens tokens).session) ∨
    ∃ name, request = .forget name ∧ session.perform request = (session.forget name).2 := by
  cases request with
  | line text =>
    cases hblank : Text.isBlankLine text with
    | true => exact .inl (handleLine_of_blank hblank session)
    | false =>
      have hline := handleLine_of_not_blank hblank session
      cases h : Token.ofSource text with
      | ok tokens => exact .inr (.inl ⟨tokens, h, hline.trans (by rw [evaluate_ok h])⟩)
      | error failure => exact .inl (hline.trans (by rw [evaluate_error h]))
  | define name body =>
    cases h : Token.ofSource body with
    | ok tokens =>
      refine .inr (.inl ⟨definition name tokens, ?_, define_ok h session⟩)
      rw [Request.tokens, h]
      rfl
    | error failure => exact .inl (define_error h session)
  | forget name => exact .inr (.inr ⟨name, rfl, rfl⟩)

/-- An invariant of sessions holds after a run, if it is kept when the tokens of a request are
evaluated and when a name is forgotten. -/
theorem performAll_keeps {P : Session → Prop} {session : Session} {requests : List Request}
    (hstart : P session)
    (hevaluate : ∀ (s : Session), ∀ request ∈ requests, ∀ tokens, request.tokens = .ok tokens →
      P s → P (s.evaluateTokens tokens).session)
    (hforget : ∀ (s : Session) (name : String), P s → P (s.forget name).2) :
    P (session.performAll requests) := by
  unfold performAll
  induction requests generalizing session with
  | nil => exact hstart
  | cons request requests ih =>
    refine ih ?_ fun s other hother => hevaluate s other (List.mem_cons_of_mem request hother)
    rcases perform_cases session request with h | ⟨tokens, htokens, h⟩ | ⟨name, -, h⟩
    · rw [h]
      exact hstart
    · rw [h]
      exact hevaluate session request List.mem_cons_self tokens htokens hstart
    · rw [h]
      exact hforget session name hstart

theorem settings_performAll (session : Session) (requests : List Request) :
    (session.performAll requests).settings = session.settings :=
  performAll_keeps (P := fun s => s.settings = session.settings) rfl (fun _ _ _ _ _ hs => hs)
    fun _ _ hs => hs

theorem settings_handleLine (session : Session) (text : String) :
    (session.handleLine text).session.settings = session.settings :=
  settings_performAll session [.line text]

end DecimalCalculator.Session
