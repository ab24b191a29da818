import DecimalCalculator.Proofs.Evaluation.Progress
import DecimalCalculator.Proofs.Session.Positional

/-!
# The frame of an evaluation

An evaluation writes only where the tokens say so. The names that it may bind anew are those that
are assigned to in the tokens to come or in the body of some function; this set never grows, since
every new body is a stretch of what was there. All other variables and functions stay as they were,
and nothing is ever unbound but the positional names, which calls bind and unbind.

`stable_frame` says so for every step, and `evaluation_frame` for whole evaluations, whatever their
end is.
-/
namespace DecimalCalculator

/-- A name under which a call binds one of its arguments. -/
def IsPositional (name : String) : Prop :=
  ∃ k, 0 < k ∧ name = Eval.positionalName k

/-- The name is assigned to in a token sequence or in the body of a function. -/
def Assigns (tokens : List Token) (functions : Bindings (List Token)) (name : String) : Prop :=
  .assign name ∈ tokens ∨ ∃ other body, functions.get? other = some body ∧ .assign name ∈ body

namespace Eval

open Context

/-- What a context holds it assigns to. -/
theorem assigns_of_holds {c : Context} {ts : List Token} {name : String} (h : c.Holds ts)
    (hname : Token.assign name ∈ ts) : Assigns c.tokens c.functions name := by
  rcases h with hts | ⟨other, body, hbody, hts⟩
  · exact .inl (hts.subset hname)
  · exact .inr ⟨other, body, hbody, hts.subset hname⟩

theorem exists_holds_of_assigns {c : Context} {name : String}
    (h : Assigns c.tokens c.functions name) : ∃ ts, c.Holds ts ∧ Token.assign name ∈ ts := by
  rcases h with hname | ⟨other, body, hbody, hname⟩
  · exact ⟨c.tokens, holds_tokens c, hname⟩
  · exact ⟨body, holds_body hbody, hname⟩

theorem assigns_of_follows {c d : Context} {name : String} (h : c.Follows d)
    (hname : Assigns d.tokens d.functions name) : Assigns c.tokens c.functions name := by
  obtain ⟨ts, hts, hmem⟩ := exists_holds_of_assigns hname
  exact assigns_of_holds (h.holds hts) hmem

/-- A name has the binding it had, or one of the assignments has given it another. -/
def Rebound {α : Type} (assigned : Prop) (before after : Option α) : Prop :=
  after = before ∨ assigned ∧ after.isSome

/-- From `c` to `d` names are bound anew only where `c` assigns to them. -/
structure Frame (c d : Context) : Prop where
  follows : c.Follows d
  values : ∀ name, ¬IsPositional name →
    Rebound (Assigns c.tokens c.functions name) (c.values.get? name) (d.values.get? name)
  functions : ∀ name,
    Rebound (Assigns c.tokens c.functions name) (c.functions.get? name) (d.functions.get? name)

section

variable {α : Type} {p q : Prop} {x y z : Option α}

theorem Rebound.refl : Rebound p x x := .inl rfl

theorem Rebound.trans (hpq : q → p) (h : Rebound p x y) (h' : Rebound q y z) : Rebound p x z := by
  rcases h' with rfl | ⟨hq, hz⟩
  · exact h
  · exact .inr ⟨hpq hq, hz⟩

theorem Rebound.isSome (h : Rebound p x y) (hx : x.isSome) : y.isSome := by
  rcases h with rfl | ⟨-, hy⟩
  · exact hx
  · exact hy

theorem Rebound.insert {b : Bindings α} {name : String} (value : α) (h : Rebound p x (b.get? name))
    {other : String} (hother : name = other → p) :
    Rebound p x ((b.insert other value).get? name) := by
  rw [Bindings.get?_insert]
  split
  · next heq => exact .inr ⟨hother heq, rfl⟩
  · exact h

end

theorem get?_unbind_of_not_positional {name : String} (h : ¬IsPositional name)
    (values : Bindings Decimal) (count : Nat) :
    (unbind values count).get? name = values.get? name := by
  rcases get?_unbind name values count with ⟨-, k, hpos, -, hk⟩ | ⟨hsame, -⟩
  · exact absurd ⟨k, hpos, hk⟩ h
  · exact hsame

theorem get?_bindFrom_of_not_positional {name : String} (h : ¬IsPositional name)
    (values : Bindings Decimal) (actuals : List Decimal) :
    (bindFrom 1 values actuals).get? name = values.get? name :=
  get?_bindFrom_of_ne 1 values actuals fun k hpos _ hk => h ⟨k, hpos, hk⟩

theorem stable_frame (settings : Settings) : Stable settings Frame where
  refl c := ⟨Follows.refl c, fun _ _ => .refl, fun _ => .refl⟩
  trans h h' := ⟨h.follows.trans h'.follows,
    fun name hname =>
      (h.values name hname).trans (assigns_of_follows h.follows) (h'.values name hname),
    fun name => (h.functions name).trans (assigns_of_follows h.follows) (h'.functions name)⟩
  drop h := ⟨follows_drop h, fun _ _ => .refl, fun _ => .refl⟩
  assign := by
    intro c d name rest value htokens h
    have hrest : ∀ other, Assigns rest c.functions other → Assigns c.tokens c.functions other :=
      fun other => assigns_of_follows (follows_drop_cons htokens)
    refine ⟨(stable_follows settings).assign value htokens h.follows, fun other hother => ?_,
      fun other => (Rebound.refl).trans (hrest other) (h.functions other)⟩
    refine ((Rebound.refl).trans (hrest other) (h.values other hother)).insert value ?_
    rintro rfl
    exact .inl (htokens ▸ List.mem_cons_self)
  define := by
    intro c name body rest after htokens hcap
    refine ⟨(stable_follows settings).define htokens hcap, fun _ _ => .refl, fun other => ?_⟩
    refine (Rebound.refl).insert body ?_
    rintro rfl
    exact .inl (htokens ▸ List.mem_cons_self)
  group h := ⟨(stable_follows settings).group h.follows, h.values, h.functions⟩
  body := by
    intro c d name body actuals hbody h
    have hinside (other : String) (hassigns : Assigns body c.functions other) :
        Assigns c.tokens c.functions other := by
      rcases hassigns with hother | hother
      · exact .inr ⟨name, body, hbody, hother⟩
      · exact .inr hother
    refine ⟨(stable_follows settings).body actuals hbody h.follows, fun other hother => ?_,
      fun other => (Rebound.refl).trans (hinside other) (h.functions other)⟩
    have hvalues := (Rebound.refl).trans (hinside other) (h.values other hother)
    change Rebound _ _ ((unbind d.values actuals.length).get? other)
    rw [get?_unbind_of_not_positional hother,
      ← get?_bindFrom_of_not_positional hother c.values actuals]
    exact hvalues

end Eval

/-- What the context `c` has kept of the bindings with which the evaluation of `tokens` began. -/
structure KeepsFrame (tokens : List Token) (values : Bindings Decimal)
    (functions : Bindings (List Token)) (c : Context) : Prop where
  value : ∀ name, ¬Assigns tokens functions name → ¬IsPositional name →
    c.values.get? name = values.get? name
  bound : ∀ name, ¬IsPositional name → values.contains name → c.values.contains name
  body : ∀ name, ¬Assigns tokens functions name → c.functions.get? name = functions.get? name
  defined : ∀ name, functions.contains name → c.functions.contains name
  stretch : ∀ name body, c.functions.get? name = some body → body <:+: tokens ∨
    ∃ other whole, functions.get? other = some whole ∧ body <:+: whole

/-- Whatever the end of an evaluation is, variables and functions that nothing assigns to are what
they were before it; only positional names are unbound; and the body of every function that is then
defined is a stretch of the tokens or of an earlier body. -/
theorem evaluation_frame (settings : Settings) (tokens : List Token) (values : Bindings Decimal)
    (functions : Bindings (List Token)) :
    KeepsFrame tokens values functions
      (Outcome.context (evaluate settings tokens values functions)) := by
  have hframe : Eval.Frame (Context.start tokens values functions) _ :=
    (Eval.stable_frame settings).calculate settings.expressionLimit _
  refine ⟨fun name hname hplain => ?_, fun name hplain hbound => ?_, fun name hname => ?_,
    fun name hbound => ?_, hframe.follows.functions⟩
  · exact (hframe.values name hplain).resolve_right fun h => hname h.1
  · exact (hframe.values name hplain).isSome hbound
  · exact (hframe.functions name).resolve_right fun h => hname h.1
  · exact (hframe.functions name).isSome hbound

/-- The function of `f = (y = $1 + (h = ($1 * 2)))`. -/
def definingFunction : List Token :=
  [.assign "y", .read "$1", .symbol .add, .symbol .parenOpen, .assign "h", .symbol .parenOpen,
    .read "$1", .symbol .mul, .number (.finite false 2 0), .symbol .parenClose,
    .symbol .parenClose]

def failingQuotient : List Token :=
  [.call "f", .symbol .parenOpen, .number (.finite false 5 0), .symbol .parenClose, .symbol .div,
    .number Decimal.zero]

def failingRun : Outcome Decimal :=
  evaluate Settings.default failingQuotient (Bindings.empty.insert "z" Decimal.one)
    (Bindings.empty.insert "f" definingFunction)

/-- The quotient fails after its left operand has assigned to `y` and defined `h`. The variable `z`
and the function `f` are what they were, and `h` is a stretch of the body of `f`. -/
theorem frame_of_failingRun :
    (Outcome.result failingRun).toOption = none ∧
      (Outcome.context failingRun).values.contains "y" ∧
      (Outcome.context failingRun).functions.contains "h" ∧
      KeepsFrame failingQuotient (Bindings.empty.insert "z" Decimal.one)
        (Bindings.empty.insert "f" definingFunction) (Outcome.context failingRun) :=
  ⟨by decide +kernel, by decide +kernel, by decide +kernel, evaluation_frame _ _ _ _⟩

end DecimalCalculator
