import DecimalCalculator.Proofs.Bindings
import DecimalCalculator.Proofs.Evaluation.Atoms
import DecimalCalculator.Proofs.Lexing.Tokens
import DecimalCalculator.Proofs.Session.Requests

/-!
# Functions as a save format

Every function of a session can be written down as the line that defines it. Handling these lines in
a session without bindings, in any order, defines the same functions with the same bodies, token by
token.

This needs bodies that can be read back from what is written, and that a definition can capture
again. Both are kept by every evaluation, since a body is captured from tokens that are spellable:
those of a source text, or those of another body that defines a function when it is called.
-/
namespace DecimalCalculator

open Token

/-- The function can be written down as a line that defines it. -/
structure IsDefinable (bound : Nat) (name : String) (body : List Token) : Prop where
  name : Lexeme.IsName name.toList
  spellable : IsSpellable body
  body : IsBody bound body

/-- Every function can be written down, and none occurs twice. -/
structure Bindings.IsSaveable (bound : Nat) (functions : Bindings (List Token)) : Prop where
  distinct : functions.Distinct
  definable : ∀ name body, functions.get? name = some body → IsDefinable bound name body

/-- What is to come can be written down, and every function as well. -/
structure Context.IsSaveable (bound : Nat) (c : Context) : Prop where
  tokens : IsSpellable c.tokens
  functions : c.functions.IsSaveable bound

theorem Bindings.isSaveable_empty (bound : Nat) :
    (Bindings.empty : Bindings (List Token)).IsSaveable bound where
  distinct := Bindings.distinct_empty
  definable _ _ h := by cases h

theorem Bindings.IsSaveable.insert {bound : Nat} {functions : Bindings (List Token)}
    (h : functions.IsSaveable bound) {name : String} {body : List Token}
    (hbody : IsDefinable bound name body) : (functions.insert name body).IsSaveable bound where
  distinct := h.distinct.insert name body
  definable := by
    intro other bs hget
    rw [Bindings.get?_insert] at hget
    split at hget
    · next hother =>
      cases hget
      rwa [hother]
    · exact h.definable other bs hget

theorem Bindings.IsSaveable.erase {bound : Nat} {functions : Bindings (List Token)}
    (h : functions.IsSaveable bound) (name : String) : (functions.erase name).IsSaveable bound where
  distinct := h.distinct.erase name
  definable := by
    intro other bs hget
    rw [Bindings.get?_erase] at hget
    split at hget
    · cases hget
    · exact h.definable other bs hget

namespace Eval

theorem stable_saveable (settings : Settings) :
    Stable settings fun c d => c.IsSaveable settings.maxDepth → d.IsSaveable settings.maxDepth where
  refl _ := id
  trans h h' := h' ∘ h
  drop hrest h := ⟨h.tokens.suffix hrest, h.functions⟩
  assign := by
    intro c d name rest value htokens h hc
    have hrest : IsSpellable rest := hc.tokens.suffix (htokens ▸ List.suffix_cons _ rest)
    have hd := h ⟨hrest, hc.functions⟩
    exact ⟨hd.tokens, hd.functions⟩
  define := by
    intro c name body rest after htokens hcap hc
    obtain ⟨hrest, hbody⟩ := capture_eq_ok_iff.1 hcap
    have hspellable := hc.tokens
    rw [htokens, hrest] at hspellable
    obtain ⟨hname, -, hopen⟩ := isSpellable_cons.1 hspellable
    obtain ⟨-, -, htail⟩ := isSpellable_cons.1 hopen
    refine ⟨htail.suffix ?_, hc.functions.insert ⟨hname, htail.of_append_parenClose, hbody⟩⟩
    exact (List.suffix_cons _ after).trans (List.suffix_append body _)
  group h hc := ⟨(h ⟨hc.tokens, hc.functions⟩).tokens, (h ⟨hc.tokens, hc.functions⟩).functions⟩
  body := by
    intro c d name body actuals hbody h hc
    have hspellable := (hc.functions.definable name body hbody).spellable
    exact ⟨hc.tokens, (h ⟨hspellable, hc.functions⟩).functions⟩

/-! ## Evaluating a definition -/

theorem evaluate_definition (settings : Settings) (name : String) {body : List Token}
    (hbody : IsBody settings.maxDepth body) (values : Bindings Decimal)
    (functions : Bindings (List Token)) :
    evaluate settings (Session.definition name body) values functions = .ok Decimal.zero
      ⟨0, [], values, functions.insert name body, [.define name body.length]⟩ := by
  obtain ⟨limit, hlimit⟩ := evaluate_eq_expression settings (Session.definition name body) values
    functions
  have htokens : (Context.start (Session.definition name body) values functions).tokens =
      .assign name :: .symbol .parenOpen :: (body ++ [.symbol .parenClose]) := rfl
  have hdefine : define settings name
      {Context.start (Session.definition name body) values functions with
        tokens := body ++ [.symbol .parenClose]} = .ok ()
      ⟨0, [], values, functions.insert name body, [.define name body.length]⟩ :=
    define_of_capture_ok name (capture_eq_ok_iff.2 ⟨rfl, hbody⟩)
  have hatom : atom settings (calculate settings limit)
      (Context.start (Session.definition name body) values functions) = .ok Decimal.zero
      ⟨0, [], values, functions.insert name body, [.define name body.length]⟩ :=
    (atom_define htokens).trans (bind_ok hdefine _)
  rw [hlimit]
  exact expression_of_atom (by simp [htokens]) (by simp [htokens])
    (Int.ofNat_lt.2 settings.maxDepth_pos) hatom (.inl rfl)

end Eval

namespace Session

def definitionLine (function : String × List Token) : String :=
  function.1 ++ " = (" ++ spellings function.2 ++ ")"

theorem spellingAfter_append_parenClose (before : Token) (ts : List Token) :
    spellingAfter before (ts ++ [.symbol .parenClose]) = spellingAfter before ts ++ ")" := by
  induction ts generalizing before with
  | nil =>
    have hspacing : spacing before (.symbol .parenClose) = "" := by simp [spacing, clingsToPrevious]
    simp [spellingAfter, hspacing, spelling, Symbol.spelling]
  | cons t ts ih => simp only [List.cons_append, spellingAfter, ih, String.append_assoc]

theorem definitionLine_eq (name : String) (body : List Token) :
    definitionLine (name, body) = spellings (definition name body) := by
  have hopen : spacing (.assign name) (.symbol .parenOpen) = " " := rfl
  have hsigns : " = (" = " =" ++ (" " ++ "(") := rfl
  rw [definition, List.cons_append, List.cons_append, spellings, spellingAfter, hopen,
    spellingAfter_append_parenClose, ← spellings_eq_spellingAfter, definitionLine, hsigns]
  simp only [spelling, Symbol.spelling, String.append_assoc]

theorem isSpellable_definition {name : String} {ts : List Token} (hname : Lexeme.IsName name.toList)
    (h : IsSpellable ts) : IsSpellable (definition name ts) :=
  isSpellable_cons.2 ⟨hname, fun _ _ => trivial,
    isSpellable_cons.2 ⟨trivial, fun _ _ => trivial, h.append_parenClose⟩⟩

theorem Request.isSpellable_tokens {request : Request} {ts : List Token}
    (hname : ∀ name body, request = .define name body → Token.ofSource name = .ok [.read name])
    (h : request.tokens = .ok ts) : IsSpellable ts := by
  cases request with
  | line text => exact isSpellable_of_ofSource h
  | define name body =>
    have hlexical := (isSpellable_of_ofSource (hname name body rfl)).lexical _ List.mem_cons_self
    rw [Request.tokens] at h
    cases hbody : Token.ofSource body with
    | ok tokens =>
      rw [hbody] at h
      cases h
      exact isSpellable_definition hlexical (isSpellable_of_ofSource hbody)
    | error failure =>
      rw [hbody] at h
      cases h
  | forget name =>
    cases h
    exact isSpellable_nil

theorem performAll_isSaveable (settings : Settings) {requests : List Request}
    (hnames : ∀ name body, .define name body ∈ requests →
      Token.ofSource name = .ok [.read name]) :
    ((new settings).performAll requests).functions.IsSaveable settings.maxDepth := by
  have hkeeps : ((new settings).performAll requests).settings = settings ∧
      ((new settings).performAll requests).functions.IsSaveable settings.maxDepth := by
    refine performAll_keeps (P := fun s => s.settings = settings ∧
      s.functions.IsSaveable settings.maxDepth) ⟨rfl, Bindings.isSaveable_empty _⟩ ?_ ?_
    · rintro s request hmem ts hts ⟨rfl, hsaveable⟩
      have hspellable : IsSpellable ts := by
        refine request.isSpellable_tokens (fun name body hrequest => ?_) hts
        exact hnames name body (hrequest ▸ hmem)
      have hend := (Eval.stable_saveable s.settings).calculate s.settings.expressionLimit
        (Context.start ts s.values s.functions) ⟨hspellable, hsaveable⟩
      exact ⟨rfl, hend.functions⟩
    · exact fun s name h => ⟨h.1, h.2.erase name⟩
  exact hkeeps.2

/-! ## Loading -/

def definitionReport : Except Failure LineReport :=
  .ok ⟨.success, some Decimal.zero, none, none⟩

theorem isBlankLine_definitionLine (function : String × List Token) :
    Text.isBlankLine (definitionLine function) = false := by
  have hopen : '(' ∈ (definitionLine function).toList := by simp [definitionLine]
  exact Lexeme.isBlankLine_of_mem hopen rfl

theorem handleLine_definitionLine (session : Session) {function : String × List Token}
    (h : IsDefinable session.settings.maxDepth function.1 function.2) :
    (session.handleLine (definitionLine function)).result = definitionReport ∧
      (session.handleLine (definitionLine function)).session =
        {session with functions := session.functions.insert function.1 function.2} := by
  have hsource : Token.ofSource (definitionLine function) =
      .ok (definition function.1 function.2) := by
    rw [definitionLine_eq function.1 function.2]
    exact ofSource_spellings (isSpellable_definition h.name h.spellable)
  have hevaluate := Eval.evaluate_definition session.settings function.1 h.body session.values
    session.functions
  constructor
  · rw [handleLine, isBlankLine_definitionLine, if_neg Bool.false_ne_true, evaluate_ok hsource]
    simp only [evaluateTokens, hevaluate]
    rfl
  · rw [handleLine_of_not_blank (isBlankLine_definitionLine function), evaluate_ok hsource]
    simp only [evaluateTokens, hevaluate]
    rfl

/-- Handling the lines of functions defines them one after another. -/
theorem handle_definitionLines {functions : List (String × List Token)} (session : Session)
    (h : ∀ function ∈ functions, IsDefinable session.settings.maxDepth function.1 function.2) :
    session.reports (functions.map definitionLine) =
        List.replicate functions.length definitionReport ∧
      session.performAll ((functions.map definitionLine).map .line) =
        {session with functions :=
          functions.foldl (fun b pair => b.insert pair.1 pair.2) session.functions} := by
  induction functions generalizing session with
  | nil => exact ⟨rfl, rfl⟩
  | cons function functions ih =>
    obtain ⟨hfirst, hrest⟩ := List.forall_mem_cons.1 h
    obtain ⟨hreport, hsession⟩ := handleLine_definitionLine session hfirst
    obtain ⟨hreports, hsessions⟩ := ih
      {session with functions := session.functions.insert function.1 function.2} hrest
    constructor
    · rw [List.map_cons, reports, hreport, hsession, hreports]
      rfl
    · rw [List.map_cons, List.map_cons, performAll, List.foldl_cons, perform, hsession]
      exact hsessions

/-- The lines that a session writes down for its functions, handled in any order by a session
without bindings, all give zero and define the same functions, and they bind no variable. -/
theorem functionsSource_restores (settings : Settings) (requests : List Request)
    (hnames : ∀ name body, .define name body ∈ requests →
      Token.ofSource name = .ok [.read name])
    (lines : List String)
    (hlines : lines.Perm (((new settings).performAll requests).functionsSource.map Prod.snd)) :
    (new settings).reports lines =
        List.replicate lines.length (.ok ⟨.success, some Decimal.zero, none, none⟩) ∧
      ((new settings).performAll (lines.map .line)).values = .empty ∧
      ∀ name, ((new settings).performAll (lines.map .line)).functions.get? name =
        ((new settings).performAll requests).functions.get? name := by
  have hsaveable := performAll_isSaveable settings hnames
  obtain ⟨functions, hfunctions⟩ : ∃ functions,
      functions = ((new settings).performAll requests).functions := ⟨_, rfl⟩
  have hsource : ((new settings).performAll requests).functionsSource.map Prod.snd =
      functions.sorted.map definitionLine := by
    rw [functionsSource, List.map_map, hfunctions]
    rfl
  rw [← hfunctions] at hsaveable ⊢
  rw [hsource] at hlines
  -- The lines are those of the functions in some order.
  obtain ⟨pairs, rfl, hpairs⟩ :=
    (congrFun (congrFun (List.eq_map_comp_perm definitionLine) lines) functions.sorted).mpr hlines
  have hperm : pairs.Perm functions.entries := hpairs.trans (List.mergeSort_perm _ _)
  have hdefinable : ∀ function ∈ pairs, IsDefinable (new settings).settings.maxDepth function.1
      function.2 :=
    fun function hmem => hsaveable.definable function.1 function.2
      (hsaveable.distinct.get?_eq_some_iff.2 (hperm.mem_iff.1 hmem))
  obtain ⟨hreports, hsession⟩ := handle_definitionLines (new settings) hdefinable
  rw [hreports, hsession, List.length_map]
  exact ⟨rfl, rfl, Bindings.get?_ofList_of_perm hsaveable.distinct hperm⟩

/-- Three functions, of which one has been defined by a call of another. -/
def nestedDefinitions : List Request :=
  [.line "f = ($1 * .50)", .define "g" "h = (f(2) - 1)", .line "g()"]

theorem functionsSource_restores_reversed :
    (∀ name body, .define name body ∈ nestedDefinitions →
      Token.ofSource name = .ok [.read name]) ∧
    ∀ name, ((new Settings.default).performAll
      ((((new Settings.default).performAll nestedDefinitions).functionsSource.map
        Prod.snd).reverse.map .line)).functions.get? name =
      ((new Settings.default).performAll nestedDefinitions).functions.get? name := by
  have hg : IsSpellable [.read "g"] :=
    isSpellable_cons.2 ⟨.word rfl (List.forall_mem_nil _), by simp [MayPrecede], isSpellable_nil⟩
  have hnames : ∀ name body, .define name body ∈ nestedDefinitions →
      Token.ofSource name = .ok [.read name] := by
    intro name body hmem
    obtain ⟨rfl, -⟩ : name = "g" ∧ body = "h = (f(2) - 1)" := by
      simpa [nestedDefinitions] using hmem
    exact ofSource_spellings hg
  exact ⟨hnames,
    (functionsSource_restores Settings.default _ hnames _ (List.reverse_perm _)).2.2⟩

end Session

end DecimalCalculator
