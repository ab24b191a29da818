import DecimalCalculator.Proofs.Evaluation.Depth

/-!
# Groups in the trace

An evaluation traces where it enters a group and where it leaves it. However it ends, every group
that it has entered it has left, and what it has traced in between belongs to the group
(`trace_is_nested`).

The trace also tells the depths. An expression at some depth enters its groups one level deeper and
calls functions with bodies one level deeper, and in them the same holds again (`TracedAt`). Since
no expression is evaluated at the greatest depth, no group is entered below it. This does not hold
across a group as it does inside, so the relation that evaluations keep is bounded: `Traces limit`
speaks of what starts at the depth `limit` or above, and a group or a body moves the limit by one
(`expression_traces`).

An expression that is nested in others has the groups around it open, the innermost one last, at the
depths that the places on the way to it have given them (`Visits.openGroups`).
-/
namespace DecimalCalculator

namespace TraceEvent

def isBracket : TraceEvent → Bool
  | enterGroup _ => true
  | leaveGroup _ => true
  | _ => false

end TraceEvent

/-- The groups of a trace match: each is left once, for the depth above it and after the groups
inside, and is entered between the depths one and `deepest`. The first event comes first. -/
inductive IsNested (deepest : Int) : List TraceEvent → Prop
  | nil : IsNested deepest []
  | group {depth : Int} {inside rest : List TraceEvent} : 1 ≤ depth → depth ≤ deepest →
    IsNested deepest inside → IsNested deepest rest →
    IsNested deepest (.enterGroup depth :: (inside ++ .leaveGroup (depth - 1) :: rest))

/-- What an expression at the given depth may trace: groups and bodies one level deeper, with what
these trace, and definitions. -/
inductive TracedAt (deepest : Int) : Int → List TraceEvent → Prop
  | nil (depth : Int) : TracedAt deepest depth []
  | group {depth : Int} {inside rest : List TraceEvent} : depth < deepest →
    TracedAt deepest (depth + 1) inside → TracedAt deepest depth rest →
    TracedAt deepest depth (.enterGroup (depth + 1) :: (inside ++ .leaveGroup depth :: rest))
  | call {depth : Int} {inside rest : List TraceEvent} (name : String) (actuals : List Decimal) :
    depth < deepest → TracedAt deepest (depth + 1) inside → TracedAt deepest depth rest →
    TracedAt deepest depth (.call name actuals (depth + 1) :: (inside ++ rest))
  | define {depth : Int} {rest : List TraceEvent} (name : String) (count : Nat) :
    TracedAt deepest depth rest → TracedAt deepest depth (.define name count :: rest)

section

variable {deepest depth : Int} {events more : List TraceEvent}

theorem IsNested.append (h : IsNested deepest events) (hmore : IsNested deepest more) :
    IsNested deepest (events ++ more) := by
  induction h with
  | nil => exact hmore
  | group hone hle hinside _ _ ih =>
    simpa only [List.cons_append, List.append_assoc] using .group hone hle hinside ih

theorem TracedAt.append (h : TracedAt deepest depth events) (hmore : TracedAt deepest depth more) :
    TracedAt deepest depth (events ++ more) := by
  induction h with
  | nil => exact hmore
  | group hlt hinside _ _ ih =>
    simpa only [List.cons_append, List.append_assoc] using .group hlt hinside (ih hmore)
  | call name actuals hlt hinside _ _ ih =>
    simpa only [List.cons_append, List.append_assoc] using .call name actuals hlt hinside (ih hmore)
  | define name count _ ih => exact .define name count (ih hmore)

/-- Without its calls and definitions the trace of an expression is nested. -/
theorem TracedAt.isNested (h : TracedAt deepest depth events) (hdepth : 0 ≤ depth) :
    IsNested deepest (events.filter TraceEvent.isBracket) := by
  induction h with
  | nil => exact .nil
  | @group depth inside rest hlt _ _ ihinside ihrest =>
    rw [List.filter_cons_of_pos rfl, List.filter_append, List.filter_cons_of_pos rfl]
    have hgroup := IsNested.group (show 1 ≤ depth + 1 by omega) (show depth + 1 ≤ deepest by omega)
      (ihinside (by omega)) (ihrest hdepth)
    rwa [Int.add_sub_cancel] at hgroup
  | call name actuals _ _ _ ihinside ihrest =>
    rw [List.filter_cons_of_neg Bool.false_ne_true, List.filter_append]
    exact (ihinside (by omega)).append (ihrest hdepth)
  | define name count _ ih =>
    rw [List.filter_cons_of_neg Bool.false_ne_true]
    exact ih hdepth

end

/-- The depths of the groups that have been entered and not left, the last one first. The trace has
its newest event first. -/
def openGroups : List TraceEvent → List Int
  | [] => []
  | .enterGroup depth :: earlier => depth :: openGroups earlier
  | .leaveGroup _ :: earlier => (openGroups earlier).tail
  | .call _ _ _ :: earlier => openGroups earlier
  | .define _ _ :: earlier => openGroups earlier

/-- The groups that are open when the given places have been entered, from the given depth on and
with the given groups open before. -/
def groupsAlong (depth : Int) (opened : List Int) : List Place → List Int
  | [] => opened
  | .group :: path => groupsAlong (depth + 1) ((depth + 1) :: opened) path
  | .body :: path => groupsAlong (depth + 1) opened path
  | .assigned :: path => groupsAlong depth opened path

namespace Eval

open Context

variable {settings : Settings}

/-! ## What evaluations trace -/

/-- From a depth up to the limit, the evaluation keeps the depth and traces what an expression there
may trace. -/
def Traces (settings : Settings) (limit : Int) (c d : Context) : Prop :=
  c.depth ≤ limit → d.depth = c.depth ∧
    ∃ events, d.trace = events.reverse ++ c.trace ∧ TracedAt settings.maxDepth c.depth events

theorem Traces.of_same {limit : Int} {c d : Context} (hdepth : d.depth = c.depth)
    (htrace : d.trace = c.trace) : Traces settings limit c d :=
  fun _ => ⟨hdepth, [], htrace, .nil c.depth⟩

theorem lasting_traces (settings : Settings) (limit : Int) :
    Lasting settings (Traces settings limit) where
  refl := fun c => .of_same rfl rfl
  trans := by
    intro a b c hab hbc ha
    obtain ⟨hb, front, htrace, hfront⟩ := hab ha
    obtain ⟨hc, back, htrace', hback⟩ := hbc (hb ▸ ha)
    refine ⟨hc.trans hb, front ++ back, ?_, hfront.append (hb ▸ hback)⟩
    rw [htrace', htrace, List.reverse_append, List.append_assoc]
  drop := fun _ => .of_same rfl rfl
  assign := fun _ _ h => h
  define := by
    intro c name body rest after _ _ _
    exact ⟨rfl, [.define name body.length], rfl, .define name body.length (.nil c.depth)⟩

/-- What an evaluation traces one level deeper is traced by the group around it. -/
theorem inGroup_traces {α : Type} {m : Eval α} (hm : Keeps (Traces settings settings.maxDepth) m) :
    Keeps (Traces settings (settings.maxDepth - 1)) (inGroup m) := by
  intro c hc
  rw [inGroup_apply, Outcome.context_mapContext]
  have hinside : c.depth + 1 ≤ settings.maxDepth := by omega
  obtain ⟨hdepth, events, htrace, hevents⟩ := hm c.enterGroup hinside
  generalize Outcome.context (m c.enterGroup) = d at hdepth htrace
  have hback : d.depth - 1 = c.depth := by
    rw [hdepth]
    exact Int.add_sub_cancel c.depth 1
  refine ⟨hback, .enterGroup (c.depth + 1) :: (events ++ [.leaveGroup c.depth]), ?_,
    .group (by omega) hevents (.nil c.depth)⟩
  change .leaveGroup (d.depth - 1) :: d.trace = _
  rw [hback, htrace]
  simp [enterGroup, record]

theorem callBody_traces {inner : Eval Decimal}
    (hinner : Keeps (Traces settings settings.maxDepth) inner) (name : String) (body : List Token)
    (actuals : List Decimal) :
    Keeps (Traces settings (settings.maxDepth - 1)) (callBody inner name body actuals) := by
  intro c hc
  rw [callBody_apply, Outcome.context_mapContext]
  have hinside : c.depth + 1 ≤ settings.maxDepth := by omega
  obtain ⟨-, events, htrace, hevents⟩ := hinner (c.enterBody name body actuals) hinside
  refine ⟨rfl, .call name actuals (c.depth + 1) :: (events ++ []), ?_,
    .call name actuals (by omega) hevents (.nil c.depth)⟩
  refine htrace.trans ?_
  simp [enterBody, nested, record]

/-- An expression is evaluated above the greatest depth only, so that its groups and bodies are at
most there. -/
theorem expression_traces {inner : Eval Decimal}
    (hinner : Keeps (Traces settings settings.maxDepth) inner) :
    Keeps (Traces settings settings.maxDepth) (expression settings inner) := by
  intro c hc
  by_cases hdepth : c.depth < settings.maxDepth
  · have hR := lasting_traces settings (settings.maxDepth - 1)
    have hkeeps : Keeps (Traces settings (settings.maxDepth - 1)) inner :=
      fun c hc => hinner c (by omega)
    have hgroup := inGroup_traces ((lasting_traces settings settings.maxDepth).items hinner)
    have hbody (name : String) (body : List Token) (actuals : List Decimal) (c : Context)
        (_ : c.functions.get? name = some body) :=
      callBody_traces hinner name body actuals c
    exact hR.expression (hR.atom hkeeps (hR.arguments hgroup) (hR.call hbody)) c (by omega)
  · rw [expression_of_le (Int.not_lt.1 hdepth)]
    exact (lasting_traces settings settings.maxDepth).refl c hc

theorem calculate_traces (settings : Settings) (bound : Nat) :
    Keeps (Traces settings settings.maxDepth) (calculate settings bound) := by
  induction bound with
  | zero => exact (lasting_traces settings settings.maxDepth).fail _
  | succ bound ih => exact expression_traces ih

/-! ## What is traced around an expression -/

/-- The depth and the open groups are the same before and after an evaluation. -/
theorem stable_openGroups (settings : Settings) :
    Stable settings (fun c d => d.depth = c.depth ∧ openGroups d.trace = openGroups c.trace) where
  refl := fun _ => ⟨rfl, rfl⟩
  trans := fun hab hbc => ⟨hbc.1.trans hab.1, hbc.2.trans hab.2⟩
  drop := fun _ => ⟨rfl, rfl⟩
  assign := fun _ _ h => h
  define := fun _ _ => ⟨rfl, rfl⟩
  group := by
    rintro c d ⟨hdepth, hopen⟩
    refine ⟨?_, congrArg List.tail hopen⟩
    change d.depth - 1 = c.depth
    rw [hdepth]
    exact Int.add_sub_cancel c.depth 1
  body := fun _ _ h => ⟨rfl, h.2⟩

section

variable {bound bound' : Nat} {c d : Context} {path : List Place}

theorem Nests.openGroups {place : Place} (h : Nests settings (calculate settings bound) c place d) :
    openGroups d.trace = groupsAlong c.depth (openGroups c.trace) [place] := by
  obtain ⟨e, ⟨hdepth, hopen⟩, hleads⟩ := h.leads (stable_openGroups settings)
    ((stable_openGroups settings).calculate bound)
  cases place with
  | group => rw [groupsAlong, groupsAlong, ← hdepth, ← hopen, hleads.2]; rfl
  | body =>
    obtain ⟨name, body, actuals, -, rfl⟩ := hleads
    exact hopen
  | assigned =>
    obtain ⟨t, rest, -, rfl⟩ := hleads
    exact hopen

/-- The groups that are open where an expression is evaluated are those on the way to it. -/
theorem Visits.openGroups (h : Visits settings bound c path bound' d) :
    openGroups d.trace = groupsAlong c.depth (openGroups c.trace) path := by
  induction h with
  | here bound c => rfl
  | @nested bound bound' c d e place path hnests _ ih =>
    have hopen := hnests.openGroups
    have hdepth := hnests.depth (calculate_follows settings bound)
    rw [ih, hopen, hdepth]
    cases place <;> simp [groupsAlong]

/-- Where the body of a function is evaluated, its call is what was traced last, with the depth of
the body. -/
theorem Visits.call_of_body (h : Visits settings bound c path bound' d)
    (hbody : path.getLast? = some .body) :
    ∃ name actuals earlier, d.trace = .call name actuals d.depth :: earlier := by
  induction h with
  | here bound c => cases hbody
  | @nested bound bound' c d e place path hnests hvisits ih =>
    cases path with
    | nil =>
      cases hvisits
      cases hbody
      obtain ⟨e, -, name, body, actuals, -, rfl⟩ := hnests.leads (stable_openGroups settings)
        ((stable_openGroups settings).calculate bound)
      exact ⟨name, actuals, e.trace, rfl⟩
    | cons place' path => exact ih hbody

end

end Eval

open Eval in
/-- However an evaluation ends, its trace without the calls and definitions is nested, with groups
between the depths one and the greatest. In the whole trace every group and every body is one level
below what it stands in directly.

The trace follows the expressions that are nested in the evaluated one. Where one of them is
entered, its depth is the number of groups and bodies around it, exactly the groups around it are
open, each at the depth that it has there, and a body has had its own depth traced by its call. What
the expression then traces are groups and bodies one level below its own depth, with what is in
them. -/
theorem trace_is_nested (settings : Settings) (tokens : List Token) (values : Bindings Decimal)
    (functions : Bindings (List Token)) :
    IsNested settings.maxDepth
      ((Outcome.context (evaluate settings tokens values functions)).trace.reverse.filter
        TraceEvent.isBracket) ∧
    TracedAt settings.maxDepth 0
      (Outcome.context (evaluate settings tokens values functions)).trace.reverse ∧
    ∀ path bound d,
      Visits settings settings.expressionLimit (Context.start tokens values functions) path bound
        d →
      d.depth = (path.count .group + path.count .body : Nat) ∧
      openGroups d.trace = groupsAlong 0 [] path ∧
      (path.getLast? = some .body →
        ∃ name actuals earlier, d.trace = .call name actuals d.depth :: earlier) ∧
      ∃ events, (Outcome.context (calculate settings bound d)).trace = events.reverse ++ d.trace ∧
        TracedAt settings.maxDepth d.depth events := by
  have hstart : (Context.start tokens values functions).depth ≤ settings.maxDepth :=
    Int.natCast_nonneg _
  have htraced {path : List Place} {bound : Nat} {d : Context}
      (h : Visits settings settings.expressionLimit (Context.start tokens values functions) path
        bound d) :=
    (calculate_traces settings bound d (h.depth_le hstart)).2
  have hwhole : TracedAt settings.maxDepth 0
      (Outcome.context (evaluate settings tokens values functions)).trace.reverse := by
    obtain ⟨events, htrace, hevents⟩ := htraced (.here _ _)
    rw [evaluate, htrace, List.reverse_append, List.reverse_reverse]
    exact hevents
  refine ⟨hwhole.isNested (Int.le_refl 0), hwhole, fun path bound d hd => ?_⟩
  refine ⟨?_, hd.openGroups, hd.call_of_body, htraced hd⟩
  rw [hd.depth]
  exact Int.zero_add _

def callOfTwo : List Token :=
  [.call "f", .symbol .parenOpen, .number (.finite false 2 0), .symbol .parenClose]

def sumInGroups : Bindings (List Token) :=
  Bindings.empty.insert "f" [.symbol .parenOpen, .read "$1", .symbol .add, .symbol .parenOpen,
    .read "y", .symbol .parenClose, .symbol .parenClose]

/-- The call `f(2)` fails inside two groups of its body, where `y` is unknown, and leaves both. -/
theorem failed_call_leaves_groups :
    Outcome.result (evaluate Settings.default callOfTwo .empty sumInGroups) =
      .error (CalcError.unknownVariable "y") ∧
    IsNested 255 [.enterGroup 1, .leaveGroup 0, .enterGroup 2, .enterGroup 3, .leaveGroup 2,
      .leaveGroup 1] ∧
    TracedAt 255 0 [.enterGroup 1, .leaveGroup 0, .call "f" [.finite false 2 0] 1, .enterGroup 2,
      .enterGroup 3, .leaveGroup 2, .leaveGroup 1] := by
  obtain ⟨hnested, htraced, -⟩ := trace_is_nested Settings.default callOfTwo .empty sumInGroups
  have htrace : (Outcome.context
      (evaluate Settings.default callOfTwo .empty sumInGroups)).trace.reverse =
        [.enterGroup 1, .leaveGroup 0, .call "f" [.finite false 2 0] 1, .enterGroup 2,
          .enterGroup 3, .leaveGroup 2, .leaveGroup 1] := by
    decide +kernel
  rw [htrace] at hnested htraced
  exact ⟨by decide +kernel, hnested, htraced⟩

end DecimalCalculator
