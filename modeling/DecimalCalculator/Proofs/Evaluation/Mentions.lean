import DecimalCalculator.Proofs.Evaluation.Frame
import DecimalCalculator.Proofs.Evaluation.SideBySide

/-!
# What an evaluation depends on

An evaluation looks at no variable but those that its tokens and the bodies of the functions
mention, and at no function that has the name of one of the calculator. Two contexts are alike when
they agree on a set of variables, which has in it all that are read anywhere, and on a set of
functions, which has in it all but the two that are never looked up. Likeness survives every step: a
body is a stretch of what was there and so mentions nothing new, an assignment is made on both
sides, and a call binds and unbinds the same positional names on both sides, whether they were bound
on one of them before or not. So the evaluations run side by side (`paired_alike`).

The set of variables can be taken to be all those on which the bindings agree before. Then they also
agree on them afterwards, whatever the end was.
-/
namespace DecimalCalculator

def MentionedIn (tokens : List Token) (name : String) : Prop :=
  .read name ∈ tokens ∨ .assign name ∈ tokens

/-- The name is read or assigned to in a token sequence or in the body of a function of the user. -/
def Mentions (tokens : List Token) (functions : Bindings (List Token)) (name : String) : Prop :=
  MentionedIn tokens name ∨
    ∃ other body, IsUserName other ∧ functions.get? other = some body ∧ MentionedIn body name

namespace Eval

/-- The contexts differ at most in the variables outside `V` and the functions outside `F`, and
nothing reads a variable outside `V`. -/
structure Alike (V F : String → Prop) (c c' : Context) : Prop where
  depth : c'.depth = c.depth
  tokens : c'.tokens = c.tokens
  trace : c'.trace = c.trace
  values : ∀ name, V name → c'.values.get? name = c.values.get? name
  functions : ∀ name, F name → c'.functions.get? name = c.functions.get? name
  read : ∀ name, .read name ∈ c.tokens → V name
  bodies : ∀ other body, IsUserName other → c.functions.get? other = some body →
    ∀ name, .read name ∈ body → V name

section

variable {α : Type}

theorem get?_insert_congr {b b' : Bindings α} {name : String}
    (h : b'.get? name = b.get? name) (other : String) (value : α) :
    (b'.insert other value).get? name = (b.insert other value).get? name := by
  simp only [Bindings.get?_insert, h]

theorem get?_bindFrom_congr {values values' : Bindings Decimal} {name : String}
    (h : values'.get? name = values.get? name) (number : Nat) (actuals : List Decimal) :
    (bindFrom number values' actuals).get? name = (bindFrom number values actuals).get? name := by
  induction actuals generalizing number values values' with
  | nil => exact h
  | cons a rest ih => exact ih (get?_insert_congr h _ a) (number + 1)

theorem get?_unbind_congr {values values' : Bindings Decimal} {name : String}
    (h : values'.get? name = values.get? name) (count : Nat) :
    (unbind values' count).get? name = (unbind values count).get? name := by
  induction count with
  | zero => exact h
  | succ count ih => simp only [unbind, Bindings.get?_erase, ih]

end

theorem paired_alike (settings : Settings) {V F : String → Prop}
    (hF : ∀ name, IsUserName name → F name) : Paired settings (Alike V F) where
  depth h := h.depth
  tokens h := h.tokens
  read := by
    intro c c' name rest h htokens
    refine h.values name (h.read name ?_)
    rw [htokens]
    exact List.mem_cons_self
  function h hname := h.functions _ (hF _ hname)
  drop h hrest := {h with tokens := rfl, read := fun name hname => h.read name (hrest.subset hname)}
  assign name value h :=
    {h with values := fun other hother => get?_insert_congr (h.values other hother) name value}
  define := by
    intro c c' name body rest after h htokens hcap
    -- The body and what follows it are stretches of the tokens, so neither mentions a new variable.
    obtain ⟨hrest, -⟩ := capture_eq_ok_iff.1 hcap
    have hbody : ∀ t ∈ body, t ∈ c.tokens := by
      intro t ht
      rw [htokens, hrest]
      simp [ht]
    have hafter : ∀ t ∈ after, t ∈ c.tokens := by
      intro t ht
      rw [htokens, hrest]
      simp [ht]
    refine ⟨h.depth, rfl, congrArg (_ :: ·) h.trace, h.values, fun other hother => ?_,
      fun other hother => h.read other (hafter _ hother), fun other bs hother hbs => ?_⟩
    · exact get?_insert_congr (h.functions other hother) name body
    · change (c.functions.insert name body).get? other = some bs at hbs
      rw [Bindings.get?_insert] at hbs
      split_ifs at hbs
      · cases hbs
        exact fun read hread => h.read read (hbody _ hread)
      · exact h.bodies other bs hother hbs
  enterGroup := by
    intro c c' h
    refine {h with depth := congrArg (· + 1) h.depth, trace := ?_}
    change _ :: c'.trace = _ :: c.trace
    rw [h.trace, h.depth]
  leaveGroup := by
    intro c c' h
    refine {h with depth := congrArg (· - 1) h.depth, trace := ?_}
    change _ :: c'.trace = _ :: c.trace
    rw [h.trace, h.depth]
  enterBody := by
    intro c c' name body actuals h hname hbody
    refine ⟨congrArg (· + 1) h.depth, rfl, ?_, fun other hother => ?_, h.functions,
      h.bodies name body hname hbody, h.bodies⟩
    · change _ :: c'.trace = _ :: c.trace
      rw [h.trace, h.depth]
    · exact get?_bindFrom_congr (h.values other hother) 1 actuals
  leaveBody count h hd :=
    ⟨h.depth, h.tokens, hd.trace, fun name hname => get?_unbind_congr (hd.values name hname) count,
      hd.functions, h.read, hd.bodies⟩

end Eval

/-- Two bindings give a name the same value, or both none. -/
def AgreeAt {α : Type} (b b' : Bindings α) (name : String) : Prop :=
  b'.get? name = b.get? name

/-- Two evaluations, that began over these bindings, have come to the same end: the value or the
failure is the same and so is the trace, and the bindings still agree wherever they did. -/
structure EndAlike (values values' : Bindings Decimal) (functions functions' : Bindings (List Token))
    (o o' : Outcome Decimal) : Prop where
  result : Outcome.result o' = Outcome.result o
  trace : (Outcome.context o').trace = (Outcome.context o).trace
  values : ∀ name, AgreeAt values values' name →
    AgreeAt (Outcome.context o).values (Outcome.context o').values name
  functions : ∀ name, AgreeAt functions functions' name →
    AgreeAt (Outcome.context o).functions (Outcome.context o').functions name

/-- An evaluation depends only on the variables that its tokens and the functions of the user
mention, and on the functions of the user. -/
theorem evaluation_depends_on_mentions (settings : Settings) (tokens : List Token)
    {values values' : Bindings Decimal} {functions functions' : Bindings (List Token)}
    (hfunctions : ∀ name, IsUserName name → AgreeAt functions functions' name)
    (hvalues : ∀ name, Mentions tokens functions name → AgreeAt values values' name) :
    EndAlike values values' functions functions' (evaluate settings tokens values functions)
      (evaluate settings tokens values' functions') := by
  have hstart : Eval.Alike (AgreeAt values values') (AgreeAt functions functions')
      (Context.start tokens values functions) (Context.start tokens values' functions') :=
    ⟨rfl, rfl, rfl, fun _ h => h, fun _ h => h, fun name hname => hvalues name (.inl (.inl hname)),
      fun other body hother hbody name hname =>
        hvalues name (.inr ⟨other, body, hother, hbody, .inl hname⟩)⟩
  have hend := (Eval.paired_alike settings hfunctions).calculate settings.expressionLimit _ _ hstart
  exact ⟨hend.result.symm, hend.context.trace, hend.context.values, hend.context.functions⟩

def callOfThree : List Token :=
  [.call "f", .symbol .parenOpen, .number (.finite false 3 0), .symbol .parenClose]

def shiftByVariable : Bindings (List Token) :=
  Bindings.empty.insert "f" [.read "$1", .symbol .add, .read "x"]

def shiftBesideAbs : Bindings (List Token) :=
  shiftByVariable.insert "abs" [.read "hidden"]

def shiftTwo : Bindings Decimal :=
  Bindings.empty.insert "x" (.finite false 2 0)

def shiftTwoBesideHidden : Bindings Decimal :=
  shiftTwo.insert "hidden" (.finite false 9 0)

theorem shiftBesideAbs_agrees {name : String} (h : IsUserName name) :
    AgreeAt shiftByVariable shiftBesideAbs name := by
  rw [AgreeAt, shiftBesideAbs, Bindings.get?_insert, if_neg h.1]

theorem shiftTwoBesideHidden_agrees {name : String} (h : Mentions callOfThree shiftByVariable name) :
    AgreeAt shiftTwo shiftTwoBesideHidden name := by
  have hname : name ≠ "hidden" := by
    rcases h with h | ⟨other, body, -, hbody, h⟩
    · simp [MentionedIn, callOfThree] at h
    · rw [shiftByVariable, Bindings.get?_insert] at hbody
      split_ifs at hbody
      · cases hbody
        rintro rfl
        simp [MentionedIn] at h
      · cases hbody
  rw [AgreeAt, shiftTwoBesideHidden, Bindings.get?_insert, if_neg hname]

/-- With a variable that nothing mentions and a body under the name `abs` the call comes to five as
without them, and the variables agree afterwards in all names but that one. -/
theorem callOfThree_depends_on_mentions :
    (∀ name, IsUserName name → AgreeAt shiftByVariable shiftBesideAbs name) ∧
      (∀ name, Mentions callOfThree shiftByVariable name →
        AgreeAt shiftTwo shiftTwoBesideHidden name) ∧
      (Outcome.result (evaluate Settings.default callOfThree shiftTwo
        shiftByVariable)).toOption = some (.finite false 5 0) ∧
      EndAlike shiftTwo shiftTwoBesideHidden shiftByVariable shiftBesideAbs
        (evaluate Settings.default callOfThree shiftTwo shiftByVariable)
        (evaluate Settings.default callOfThree shiftTwoBesideHidden shiftBesideAbs) :=
  ⟨fun _ => shiftBesideAbs_agrees, fun _ => shiftTwoBesideHidden_agrees, by decide +kernel,
    evaluation_depends_on_mentions _ _ (fun _ => shiftBesideAbs_agrees)
      fun _ => shiftTwoBesideHidden_agrees⟩

end DecimalCalculator
