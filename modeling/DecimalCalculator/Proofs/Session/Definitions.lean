import DecimalCalculator.Proofs.Session.SaveFormat

/-!
# Defining a function by a source text

A definition puts the tokens of a source text between an assignment and two parentheses and
evaluates the whole. If the text is a body, it is stored and nothing else changes; if the capture
fails in it, nothing changes at all. There is a third case. A text may have a parenthesis in it that
closes the definition, as `1) + (2` has. Then only what stands before that parenthesis is stored,
and the rest is evaluated as the rest of the line, with everything it does and with every failure it
may come to.

In the third case the name is bound to a closed body whatever happens later, because evaluations
store nothing else. The text is not closed, so it is never what was asked for
(`define_is_exact_unless_closed_early`).
-/
namespace DecimalCalculator

/-- A body stands in the tokens before a parenthesis that closes none of theirs. -/
def ClosesEarly (bound : Nat) (tokens : List Token) : Prop :=
  ∃ body rest, tokens = body ++ .symbol .parenClose :: rest ∧ IsBody bound body

theorem ClosesEarly.not_isClosed {bound : Nat} {tokens : List Token}
    (h : ClosesEarly bound tokens) : ¬IsClosed tokens := by
  obtain ⟨body, rest, rfl, hbody, -⟩ := h
  intro hclosed
  cases hclosed.of_append hbody

/-- A text that is no body and holds none is refused by the capture. -/
theorem capture_definition_error {bound : Nat} {tokens : List Token}
    (hbody : ¬IsBody bound tokens) (hearly : ¬ClosesEarly bound tokens) :
    ∃ error after, capture bound 1 (tokens ++ [.symbol .parenClose]) = (.error error, after) := by
  cases hcap : capture bound 1 (tokens ++ [.symbol .parenClose]) with
  | mk captured after =>
    cases captured with
    | error error => exact ⟨error, after, rfl⟩
    | ok body =>
      obtain ⟨htokens, hstored⟩ := capture_eq_ok_iff.1 hcap
      -- What is captured ends at the added parenthesis or at one of the text itself.
      rcases List.eq_nil_or_concat after with rfl | ⟨rest, last, rfl⟩
      · rw [List.append_left_inj] at htokens
        exact absurd (htokens ▸ hstored) hbody
      · rw [List.concat_eq_append, ← List.cons_append, ← List.append_assoc] at htokens
        obtain ⟨htokens, -⟩ := List.append_inj' htokens rfl
        exact absurd ⟨body, rest, htokens, hstored⟩ hearly

namespace Eval

variable {α β : Type} {settings : Settings} {inner : Eval Decimal} {c d : Context}

/-! ## A definition at the beginning of an expression -/

section

variable {R : Context → Context → Prop} (hR : Stable settings R)
include hR

theorem Stable.bind_from {m : Eval α} {f : α → Eval β} (hm : R d (Outcome.context (m c)))
    (hf : ∀ a, Keeps R (f a)) : R d (Outcome.context ((m >>= f) c)) := by
  cases h : m c with
  | ok a e =>
    rw [h] at hm
    rw [bind_ok h]
    exact hR.trans hm (hf a e)
  | error failure e =>
    rw [h] at hm
    rw [bind_error h]
    exact hm

variable (hinner : Keeps R inner) (hsub : c.tokens.head? ≠ some (.symbol .sub))
  (hnot : c.tokens.head? ≠ some (.symbol .not))
  (hatom : R d (Outcome.context (Eval.atom settings inner c)))
include hinner hsub hnot hatom

theorem Stable.cascade_from (tiers : List Level) :
    R d (Outcome.context (Eval.cascade settings inner tiers c)) := by
  induction tiers with
  | nil =>
    have hfirst : R d (Outcome.context (Eval.complemented settings inner c)) := by
      rwa [complemented_of_ne hnot, primary_of_ne hsub]
    refine hR.bind_from hfirst fun value => hR.bind (hR.accept .factorial) fun taken => ?_
    cases taken with
    | none => exact hR.pure value
    | some _ => exact hR.ofExcept _
  | cons level tiers ih =>
    have htier := hR.cascade hinner tiers
    exact hR.bind_from ih fun _ => hR.bind (hR.allOperands _ htier) fun _ => hR.ofExcept _

end

/-- What holds after a definition at the beginning of an expression, and is kept from there on,
holds at its end. -/
theorem Stable.expression_from {R : Context → Context → Prop} (hR : Stable settings R)
    (hinner : Keeps R inner) {name : String} {rest body after : List Token}
    (htokens : c.tokens = .assign name :: .symbol .parenOpen :: rest)
    (hcap : capture settings.maxDepth 1 rest = (.ok body, after))
    (hdepth : c.depth < settings.maxDepth) :
    R ({c with tokens := after, functions := c.functions.insert name body}.record
        (.define name body.length))
      (Outcome.context (Eval.expression settings inner c)) := by
  have hdefine := define_of_capture_ok name (c := {c with tokens := rest}) hcap
  rw [expression_of_lt hdepth]
  refine hR.bind_from (hR.cascade_from hinner (by simp [htokens]) (by simp [htokens]) ?_ levels)
    fun _ => hR.bind hR.finish fun _ => hR.pure _
  rw [atom_define htokens, bind_ok hdefine]
  exact hR.refl _

def IsClosedAt (functions : Bindings (List Token)) (name : String) : Prop :=
  ∃ body, functions.get? name = some body ∧ IsClosed body

theorem stable_closedAt (settings : Settings) (name : String) :
    Stable settings fun c d => IsClosedAt c.functions name → IsClosedAt d.functions name where
  refl _ := id
  trans h h' := h' ∘ h
  drop _ := id
  assign _ _ h := h
  define := by
    intro c other body rest after _ hcap ⟨old, hold, hclosed⟩
    obtain ⟨-, hbody, -⟩ := capture_eq_ok_iff.1 hcap
    change IsClosedAt (c.functions.insert other body) name
    rw [IsClosedAt, Bindings.get?_insert]
    split
    · exact ⟨body, rfl, hbody⟩
    · exact ⟨old, hold, hclosed⟩
  group h := h
  body _ _ h := h

/-- A text that closes the definition early leaves the name bound to a closed body. -/
theorem evaluate_definition_early (settings : Settings) (name : String) {tokens : List Token}
    (h : ClosesEarly settings.maxDepth tokens) (values : Bindings Decimal)
    (functions : Bindings (List Token)) :
    IsClosedAt (Outcome.context
      (evaluate settings (Session.definition name tokens) values functions)).functions name := by
  obtain ⟨limit, hlimit⟩ := evaluate_eq_expression settings (Session.definition name tokens) values
    functions
  rw [hlimit]
  obtain ⟨body, rest, rfl, hbody⟩ := h
  have hcap : capture settings.maxDepth 1
      (body ++ .symbol .parenClose :: rest ++ [.symbol .parenClose]) =
        (.ok body, rest ++ [.symbol .parenClose]) :=
    capture_eq_ok_iff.2 ⟨List.append_assoc _ _ _, hbody⟩
  have hstored : IsClosedAt (functions.insert name body) name :=
    ⟨body, by rw [Bindings.get?_insert, if_pos rfl], hbody.1⟩
  have hR := stable_closedAt settings name
  have hdepth : (0 : Int) < settings.maxDepth := Int.ofNat_lt.2 settings.maxDepth_pos
  exact hR.expression_from (hR.calculate limit) rfl hcap hdepth hstored

theorem evaluate_definition_refused (settings : Settings) (name : String) {tokens : List Token}
    (hbody : ¬IsBody settings.maxDepth tokens) (hearly : ¬ClosesEarly settings.maxDepth tokens)
    (values : Bindings Decimal) (functions : Bindings (List Token)) :
    ∃ (error : CalcError) (after : List Token),
      evaluate settings (Session.definition name tokens) values functions =
        .error error ⟨0, after, values, functions, []⟩ := by
  obtain ⟨limit, hlimit⟩ := evaluate_eq_expression settings (Session.definition name tokens) values
    functions
  obtain ⟨error, after, hcap⟩ := capture_definition_error hbody hearly
  refine ⟨error, after, ?_⟩
  have htokens : (Context.start (Session.definition name tokens) values functions).tokens =
      .assign name :: .symbol .parenOpen :: (tokens ++ [.symbol .parenClose]) := rfl
  have hdefine : define settings name
      {Context.start (Session.definition name tokens) values functions with
        tokens := tokens ++ [.symbol .parenClose]} =
      .error error ⟨0, after, values, functions, []⟩ :=
    define_of_capture_error name hcap
  have hatom : atom settings (calculate settings limit)
      (Context.start (Session.definition name tokens) values functions) =
      .error error ⟨0, after, values, functions, []⟩ :=
    (atom_define htokens).trans (bind_error hdefine _)
  rw [hlimit]
  exact expression_of_atom_error (by simp [htokens]) (by simp [htokens])
    (Int.ofNat_lt.2 settings.maxDepth_pos) hatom

end Eval

namespace Session

/-- What defining a function comes to, by what the source text of its body comes to. -/
inductive Defines (session : Session) (name : String) (step : Step Unit) :
    Except Failure (List Token) → Prop
  | unreadable {failure : Failure} : step = ⟨.error failure, session, []⟩ →
    Defines session name step (.error failure)
  | stored {tokens : List Token} : IsBody session.settings.maxDepth tokens →
    step.result = .ok () →
    step.session = {session with functions := session.functions.insert name tokens} →
    Defines session name step (.ok tokens)
  | refused {tokens : List Token} {error : CalcError} :
    ¬IsBody session.settings.maxDepth tokens →
    ¬ClosesEarly session.settings.maxDepth tokens →
    step.result = .error error → step.session = session →
    Defines session name step (.ok tokens)
  | closedEarly {tokens stored : List Token} : ClosesEarly session.settings.maxDepth tokens →
    step.session.functions.get? name = some stored → stored ≠ tokens →
    Defines session name step (.ok tokens)

/-- Unless the source text closes the definition early, its tokens are stored exactly and nothing
else changes, or the definition fails and nothing changes at all. If the text closes it early, the
name is bound to something else than its tokens afterwards, whether the definition failed or not. -/
theorem define_is_exact_unless_closed_early (session : Session) (name source : String) :
    Defines session name (session.define name source) (Token.ofSource source) := by
  cases hsource : Token.ofSource source with
  | error failure => exact .unreadable (by rw [Session.define, hsource])
  | ok tokens =>
    have hdefine : session.define name source =
        ⟨(session.evaluateTokens (definition name tokens)).result.map fun _ => (),
          (session.evaluateTokens (definition name tokens)).session,
          (session.evaluateTokens (definition name tokens)).trace⟩ := by
      rw [Session.define, hsource]
    rw [hdefine]
    by_cases hbody : IsBody session.settings.maxDepth tokens
    · have hstored := Eval.evaluate_definition session.settings name hbody session.values
        session.functions
      refine .stored hbody ?_ ?_ <;> simp [evaluateTokens, hstored, Except.map]
    by_cases hearly : ClosesEarly session.settings.maxDepth tokens
    · obtain ⟨stored, hget, hclosed⟩ := Eval.evaluate_definition_early session.settings name hearly
        session.values session.functions
      refine .closedEarly hearly hget ?_
      rintro rfl
      exact hearly.not_isClosed hclosed
    · obtain ⟨error, after, hrefused⟩ := Eval.evaluate_definition_refused session.settings name
        hbody hearly session.values session.functions
      have hresult : (session.evaluateTokens (definition name tokens)).result.map (fun _ => ()) =
          .error (error : Failure) := by
        simp [evaluateTokens, hrefused, Except.map]
      exact .refused hbody hearly hresult (by simp [evaluateTokens, hrefused])

/-- The text `1) / (0` closes the definition, which fails after it has stored another body than that
of the text. The text `1) + (2` does the same and does not even fail. -/
theorem closingTexts_store_another_body :
    ((new Settings.default).define "f" "1) / (0").result.toOption = none ∧
      (new Settings.default).functions.get? "f" = none ∧
      ((new Settings.default).define "f" "1) / (0").session.functions.get? "f" =
        some [.number Decimal.one] ∧
      ((new Settings.default).define "f" "1) + (2").result.toOption = some () ∧
      (Token.ofSource "1) + (2").toOption ≠ some [.number Decimal.one] ∧
      ((new Settings.default).define "f" "1) + (2").session.functions.get? "f" =
        some [.number Decimal.one] := by
  decide +kernel

end Session

end DecimalCalculator
