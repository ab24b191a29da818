import DecimalCalculator.Proofs.Evaluation.Completeness

/-!
# Trees that only calculate

A tree without assignments, definitions and calls of user functions changes no bindings, so its
evaluation is a computation on the tree: `compute` takes the operands from left to right and then
applies the operation. Whatever stands in front of the end of an expression and spells such a tree
is evaluated to the result of the computation, be it a value or a failure, as long as the groups and
arguments are not nested too deeply (`evaluate_of_isPure`).
-/
namespace DecimalCalculator

namespace Expr

/-- The tree consists of numbers, variables, groups, operations and calls of `abs` and `pow`. -/
inductive IsPure : Expr → Prop
  | number (value : Decimal) : IsPure (.number value)
  | read (name : String) : IsPure (.read name)
  | group {e : Expr} : IsPure e → IsPure (.group e)
  | call {name : String} {es : List Expr} : name = "abs" ∨ name = "pow" →
    (∀ e ∈ es, IsPure e) → IsPure (.call name es)
  | minus {e : Expr} : IsPure e → IsPure (.minus e)
  | complement {e : Expr} : IsPure e → IsPure (.complement e)
  | factorial {e : Expr} : IsPure e → IsPure (.factorial e)
  | binary {op : Symbol} {left right : Expr} : IsPure left → IsPure right →
    IsPure (.binary op left right)

mutual

/-- How many groups and arguments lie around one another. -/
def depth : Expr → Nat
  | group e => e.depth + 1
  | call _ es => depthAll es
  | assign _ e | minus e | complement e | factorial e => e.depth
  | binary _ left right => max left.depth right.depth
  | number _ | read _ | define _ _ => 0

def depthAll : List Expr → Nat
  | [] => 0
  | e :: es => max (e.depth + 1) (depthAll es)

end

/-- What a function of the calculator makes of its arguments. -/
def callBuiltin (settings : Settings) (name : String) (actuals : List Decimal) :
    Except Failure Decimal :=
  if name = "abs" then
    match actuals with
    | [a] => .ok a.abs
    | _ => .error (CalcError.wrongCount 1 actuals.length)
  else
    match actuals with
    | [a, b] => Arithmetic.power settings.memory settings.precision a b
    | _ => .error (CalcError.wrongCount 2 actuals.length)

mutual

/-- The result of the operations of a tree. Assignments and definitions count as zero. -/
def compute (settings : Settings) (values : Bindings Decimal) : Expr → Except Failure Decimal
  | number value => .ok value
  | read name =>
    match values.get? name with
    | some value => .ok value
    | none => .error (CalcError.unknownVariable name)
  | group e => compute settings values e
  | call name es => computeAll settings values es >>= callBuiltin settings name
  | assign _ _ | define _ _ => .ok Decimal.zero
  | minus e => (compute settings values e).map Decimal.neg
  | complement e => compute settings values e >>= Arithmetic.complement
  | factorial e => compute settings values e >>= Arithmetic.factorial settings.memory
  | binary op left right => do
    let a ← compute settings values left
    let b ← compute settings values right
    Arithmetic.apply settings.memory settings.precision op.family (.symbol op) a b

def computeAll (settings : Settings) (values : Bindings Decimal) :
    List Expr → Except Failure (List Decimal)
  | [] => .ok []
  | e :: es => do
    let a ← compute settings values e
    return a :: (← computeAll settings values es)

end

end Expr

namespace Eval

open Context

variable {α β : Type} {settings : Settings}

/-- The result of a computation, and the place at which it ends if it returns. -/
def Ends (o : Outcome α) (r : Except Failure α) (depth : Nat) (s : Store) (rest : List Token) :
    Prop :=
  o.result = r ∧ ∀ a d, o = .ok a d → d.IsAt depth s rest

section

variable {depth depth' : Nat} {s s' : Store} {rest rest' : List Token} {r : Except Failure α}

theorem ends_ok {d : Context} (h : d.IsAt depth s rest) (a : α) :
    Ends (.ok a d) (.ok a) depth s rest := by
  refine ⟨rfl, ?_⟩
  rintro _ _ ⟨⟩
  exact h

theorem ends_error (failure : Failure) (d : Context) :
    Ends (.error failure d : Outcome α) (.error failure) depth s rest := by
  refine ⟨rfl, ?_⟩
  rintro _ _ ⟨⟩

theorem ends_ofExcept {d : Context} (h : d.IsAt depth s rest) (r : Except Failure α) :
    Ends (ofExcept r d) r depth s rest := by
  cases r with
  | ok a => exact ends_ok h a
  | error failure => exact ends_error failure d

theorem Ends.bind {m : Eval α} {f : α → Eval β} {g : α → Except Failure β} {c : Context}
    (hm : Ends (m c) r depth s rest)
    (hf : ∀ (a : α) (d : Context), d.IsAt depth s rest → Ends (f a d) (g a) depth' s' rest') :
    Ends ((m >>= f) c) (r >>= g) depth' s' rest' := by
  obtain ⟨rfl, hat⟩ := hm
  cases h : m c with
  | ok a d =>
    rw [bind_ok h]
    exact hf a d (hat a d h)
  | error failure d =>
    rw [bind_error h]
    exact ends_error failure d

/-- What comes after a computation may leave its result as it is. -/
theorem Ends.andThen {m : Eval α} {f : α → Eval α} {c : Context} (hm : Ends (m c) r depth s rest)
    (hf : ∀ (a : α) (d : Context), d.IsAt depth s rest → Ends (f a d) (.ok a) depth' s' rest') :
    Ends ((m >>= f) c) r depth' s' rest' := by
  have hbind := hm.bind hf
  rwa [show (r >>= fun a => Except.ok a) = r from bind_pure r] at hbind

theorem Ends.mapContext {o : Outcome α} {f : Context → Context} (h : Ends o r depth s rest)
    (hf : ∀ d : Context, d.IsAt depth s rest → (f d).IsAt depth' s' rest') :
    Ends (Outcome.mapContext f o) r depth' s' rest' := by
  obtain ⟨rfl, hat⟩ := h
  cases o with
  | ok a d => exact ends_ok (hf d (hat a d rfl)) a
  | error failure d => exact ends_error failure (f d)

end

/-! ## Reading a tree at a lower level -/

/-- As for values, the result of the next rung is the result of a rung if no sign of its own
follows or stands in front. -/
theorem Ends.lower {inner : Eval Decimal} (hkeeps : Keeps Follows inner) {rank : Nat} {c : Context}
    {r : Except Failure Decimal} {depth : Nat} {s : Store} {rest : List Token}
    (h : Ends (rung settings inner (rank + 1) c) r depth s rest) (hlow : 1 ≤ rank)
    (hhigh : rank ≤ 8) (hstop : Stops rank rest)
    (hfront : rank = 8 → c.tokens.head? ≠ some (.symbol .not)) :
    Ends (rung settings inner rank c) r depth s rest := by
  obtain rfl | rfl | hbinary : rank = 8 ∨ rank = 7 ∨ rank ≤ 6 := by omega
  · change Ends (complemented settings inner c) r depth s rest
    rw [complemented_of_ne (hfront rfl)]
    exact h
  · change Ends (operand settings inner c) r depth s rest
    refine h.andThen fun a d hd => ?_
    have hne : d.tokens.head? ≠ some (.symbol .factorial) := by
      rw [hd.tokens]
      exact fun hs => absurd (hstop _ hs) (by decide)
    rw [bind_ok (accept_of_ne hne)]
    exact ends_ok hd a
  · obtain ⟨k, rfl⟩ := Nat.exists_eq_add_of_le' hlow
    obtain ⟨level, hchain, hmem, -⟩ := rung_eq_chain settings (k := k) (by omega) inner
    rw [hchain, chain_unfold _ _ (follows_length (rung_keeps hkeeps (k + 2)))]
    refine h.andThen fun a d hd => ?_
    have hnone : ∀ op more, d.tokens = .symbol op :: more → op ∉ level.operators := by
      intro op more hop hops
      have hlevel := (hmem op).1 hops
      have hlt := hstop op (by rw [← hd.tokens, hop]; rfl)
      omega
    rw [bind_ok (acceptOneOf_of_notMem hnone)]
    exact ends_ok hd a

/-- Evaluating at the level of the tree takes its tokens and ends with the result, if the depth and
the number of expressions leave room for it. -/
def Computes (settings : Settings) (depth : Nat) (e : Expr) (s : Store)
    (r : Except Failure Decimal) : Prop :=
  ∀ (bound : Nat) (c : Context) (rest : List Token), depth + e.depth < settings.maxDepth →
    e.depth ≤ bound → c.IsAt depth s (e.spelling ++ rest) → Stops e.level rest →
    Ends (rung settings (calculate settings bound) e.level c) r depth s rest

section

variable {depth : Nat} {e : Expr} {s : Store} {r : Except Failure Decimal}

/-- A tree can be read at every level up to its own. -/
theorem Computes.rung (h : Computes settings depth e s r) {rank : Nat} (hlow : 1 ≤ rank)
    (hle : rank ≤ e.level) {bound : Nat} {c : Context} {rest : List Token}
    (hdepth : depth + e.depth < settings.maxDepth) (hbound : e.depth ≤ bound)
    (hc : c.IsAt depth s (e.spelling ++ rest)) (hstop : Stops rank rest) :
    Ends (rung settings (calculate settings bound) rank c) r depth s rest := by
  induction hgap : e.level - rank generalizing rank with
  | zero =>
    obtain rfl : rank = e.level := by omega
    exact h bound c rest hdepth hbound hc hstop
  | succ gap ih =>
    have hnine := e.level_le
    refine (ih (by omega) (by omega) (hstop.mono (Nat.le_succ rank)) (by omega)).lower
      (calculate_follows settings bound) hlow (by omega) hstop ?_
    intro hrank
    rw [hc.tokens, e.head?_spelling_append]
    exact Expr.head?_spelling_ne_not (by omega)

/-- A tree that stands before the end of an expression is the whole expression. -/
theorem Computes.calculate (h : Computes settings depth e s r) (hlevel : 1 ≤ e.level) {bound : Nat}
    {c : Context} {rest : List Token} (hdepth : depth + e.depth < settings.maxDepth)
    (hbound : e.depth < bound) (hc : c.IsAt depth s (e.spelling ++ rest))
    (hend : Ended depth rest) : Ends (calculate settings bound c) r depth s rest := by
  cases bound with
  | zero => exact absurd hbound (Nat.not_lt_zero _)
  | succ bound =>
    have hlt : c.depth < settings.maxDepth := by
      rw [hc.depth]
      omega
    change Ends (expression settings (Eval.calculate settings bound) c) r depth s rest
    rw [expression_of_lt hlt]
    refine (h.rung (Nat.le_refl 1) hlevel hdepth (Nat.le_of_lt_succ hbound) hc
      hend.stops).andThen fun a d hd => ?_
    rw [bind_ok (finish_of_atEnd (hd.atEnd hend))]
    exact ends_ok hd a

end

/-! ## Arguments -/

/-- Evaluating arguments takes their tokens and ends with their results, after the first of them has
been evaluated or from the beginning. -/
structure ComputesAll (settings : Settings) (depth : Nat) (es : List Expr) (s : Store)
    (r : Except Failure (List Decimal)) : Prop where
  rest : ∀ (bound : Nat) (c : Context) (after : List Token),
    depth + Expr.depthAll es < settings.maxDepth → Expr.depthAll es ≤ bound →
    c.IsAt (depth + 1) s (Expr.spellingRest es ++ .symbol .parenClose :: after) →
    Ends (allOperands [.separator] (calculate settings bound) c)
      (r.map (List.map (Prod.mk .separator))) (depth + 1) s (.symbol .parenClose :: after)
  all : ∀ (bound : Nat) (c : Context) (after : List Token),
    depth + Expr.depthAll es < settings.maxDepth → Expr.depthAll es ≤ bound →
    c.IsAt depth s (Expr.spellingAll es ++ .symbol .parenClose :: after) →
    Ends (arguments (calculate settings bound) c) r depth s after

theorem computesAll_nil (settings : Settings) (depth : Nat) (s : Store) :
    ComputesAll settings depth [] s (.ok []) where
  rest bound c after _ _ hc := by
    rw [allOperands_unfold _ (follows_length (calculate_follows settings bound))]
    have hnone : ∀ op more, c.tokens = .symbol op :: more → op ∉ [Symbol.separator] := by
      intro op more hop
      rw [hc.tokens] at hop
      cases hop
      decide
    rw [bind_ok (acceptOneOf_of_notMem hnone)]
    exact ends_ok hc []
  all bound c after _ _ hc := by
    rw [arguments_empty hc.tokens]
    exact ends_ok (Context.IsAt.drop_cons hc) []

section

variable {depth : Nat} {e : Expr} {es : List Expr} {s : Store} {r : Except Failure Decimal}
  {rs : Except Failure (List Decimal)} {bodyBound : Nat}

theorem results_of_pairs (r : Except Failure Decimal) (rs : Except Failure (List Decimal)) :
    (r >>= fun a => rs.map (List.map (Prod.mk Symbol.separator)) >>= fun pairs =>
      .ok (a :: pairs.map Prod.snd)) = r >>= fun a => rs.map (a :: ·) := by
  cases r with
  | ok a =>
    cases rs with
    | ok as =>
      have hsnd : (as.map (Prod.mk Symbol.separator)).map Prod.snd = as :=
        List.map_map.trans (List.map_id as)
      change Except.ok (a :: (as.map _).map Prod.snd) = Except.ok (a :: as)
      rw [hsnd]
    | error failure => rfl
  | error failure => rfl

theorem computesAll_cons (hwf : e.WellFormed bodyBound) (he : Computes settings (depth + 1) e s r)
    (hes : ComputesAll settings depth es s rs) :
    ComputesAll settings depth (e :: es) s (r >>= fun a => rs.map (a :: ·)) where
  rest bound c after hdepth hbound hc := by
    rw [Expr.depthAll] at hdepth hbound
    rw [Expr.spellingRest, List.cons_append, List.cons_append, List.append_assoc] at hc
    rw [allOperands_unfold _ (follows_length (calculate_follows settings bound)),
      bind_ok (acceptOneOf_cons hc.tokens List.mem_cons_self)]
    have hresult : (r >>= fun a => rs.map (a :: ·)).map (List.map (Prod.mk Symbol.separator)) =
        r >>= fun a => rs.map (List.map (Prod.mk Symbol.separator)) >>= fun pairs =>
          .ok ((.separator, a) :: pairs) := by
      cases r <;> cases rs <;> rfl
    rw [hresult]
    refine (he.calculate hwf.level_pos (by omega) (by omega) hc.drop_cons
      (ended_spellingRest depth es after)).bind fun a d hd => ?_
    exact (hes.rest bound d after (by omega) (by omega) hd).bind fun pairs d' hd' => ends_ok hd' _
  all bound c after hdepth hbound hc := by
    rw [Expr.depthAll] at hdepth hbound
    rw [Expr.spellingAll, List.append_assoc] at hc
    have hfront : c.tokens.head? ≠ some (.symbol .parenClose) := by
      rw [hc.tokens, e.head?_spelling_append]
      exact hwf.head?_ne_parenClose
    have hitems : Ends (items (calculate settings bound) c.enterGroup)
        (r >>= fun a => rs.map (a :: ·)) (depth + 1) s (.symbol .parenClose :: after) := by
      rw [← results_of_pairs]
      refine (he.calculate hwf.level_pos (by omega) (by omega) hc.enterGroup
        (ended_spellingRest depth es after)).bind fun a d hd => ?_
      exact (hes.rest bound d after (by omega) (by omega) hd).bind fun pairs d' hd' =>
        ends_ok hd' _
    have hgroup : Ends (inGroup (items (calculate settings bound)) c)
        (r >>= fun a => rs.map (a :: ·)) depth s (.symbol .parenClose :: after) := by
      rw [inGroup_apply]
      exact hitems.mapContext fun d hd => hd.leaveGroup
    rw [arguments_items hfront]
    refine hgroup.andThen fun actuals d hd => ?_
    rw [close_cons _ hd.tokens]
    exact ends_ok hd.drop_cons _

/-! ## Atoms -/

theorem computes_of_atom (hlevel : e.level = 9)
    (hfront : e.spelling.head? ≠ some (.symbol .sub))
    (h : ∀ (bound : Nat) (c : Context) (rest : List Token), depth + e.depth < settings.maxDepth →
      e.depth ≤ bound → c.IsAt depth s (e.spelling ++ rest) →
      Ends (atom settings (calculate settings bound) c) r depth s rest) :
    Computes settings depth e s r := by
  intro bound c rest hdepth hbound hc _
  rw [hlevel]
  change Ends (primary settings (calculate settings bound) c) r depth s rest
  rw [primary_of_ne]
  · exact h bound c rest hdepth hbound hc
  · rwa [hc.tokens, e.head?_spelling_append]

theorem computes_number (depth : Nat) (s : Store) (a : Decimal) :
    Computes settings depth (.number a) s (.ok a) := by
  refine computes_of_atom rfl (by simp [Expr.spelling]) fun bound c rest _ _ hc => ?_
  rw [atom_number hc.tokens]
  exact ends_ok hc.drop_cons a

theorem computes_read (depth : Nat) (s : Store) (name : String) :
    Computes settings depth (.read name) s ((Expr.read name).compute settings s.values) := by
  refine computes_of_atom rfl (by simp [Expr.spelling]) fun bound c rest _ _ hc => ?_
  have hget : c.values.get? name = s.values.get? name := by
    rw [← hc.store]
    rfl
  rw [atom_read hc.tokens, lookup, hget, Expr.compute]
  cases s.values.get? name with
  | some a => exact ends_ok hc.drop_cons a
  | none => exact ends_error _ _

theorem computes_group (h : ComputesAll settings depth [e] s (r.map ([·]))) :
    Computes settings depth (.group e) s r := by
  refine computes_of_atom rfl (by simp [Expr.spelling]) fun bound c rest hdepth hbound hc => ?_
  have hat : c.IsAt depth s
      (.symbol .parenOpen :: (Expr.spellingAll [e] ++ .symbol .parenClose :: rest)) := by
    simpa [Expr.spelling, Expr.spellingAll, Expr.spellingRest] using hc
  have hone : Expr.depthAll [e] = (Expr.group e).depth := by simp [Expr.depthAll, Expr.depth]
  have hsole : (r.map ([·]) >>= fun actuals => match actuals with
      | [a] => .ok a
      | _ => .error (CalcError.wrongCount 1 actuals.length)) = r := by
    cases r <;> rfl
  rw [atom_group hat.tokens, ← hsole]
  refine (h.all bound _ rest (hone ▸ hdepth) (hone ▸ hbound) hat.drop_cons).bind
    fun actuals d hd => ?_
  rcases actuals with _ | ⟨a, _ | ⟨b, more⟩⟩
  · exact ends_error _ d
  · exact ends_ok hd a
  · exact ends_error _ d

theorem computes_call {name : String} (hname : name = "abs" ∨ name = "pow")
    (h : ComputesAll settings depth es s rs) :
    Computes settings depth (.call name es) s (rs >>= Expr.callBuiltin settings name) := by
  refine computes_of_atom rfl (by simp [Expr.spelling]) fun bound c rest hdepth hbound hc => ?_
  have hat : c.IsAt depth s (.call name :: .symbol .parenOpen ::
      (Expr.spellingAll es ++ .symbol .parenClose :: rest)) := by
    simpa [Expr.spelling] using hc
  have hcall (actuals : List Decimal) : call settings (calculate settings bound) name actuals =
      ofExcept (Expr.callBuiltin settings name actuals) := by
    rcases hname with rfl | rfl
    · rcases actuals with _ | ⟨a, _ | ⟨b, more⟩⟩ <;> rfl
    · rcases actuals with _ | ⟨a, _ | ⟨b, _ | ⟨d, more⟩⟩⟩ <;> rfl
  rw [atom_call hat.tokens]
  refine (h.all bound _ rest hdepth hbound hat.drop_cons.drop_cons).bind fun actuals d hd => ?_
  rw [hcall]
  exact ends_ofExcept hd _

/-! ## Signs and operators -/

theorem computes_minus (hlevel : 9 ≤ e.level) (h : Computes settings depth e s r) :
    Computes settings depth (.minus e) s (r.map Decimal.neg) := by
  intro bound c rest hdepth hbound hc hstop
  have hat : c.IsAt depth s (.symbol .sub :: (e.spelling ++ rest)) := hc
  change Ends (primary settings (calculate settings bound) c) (r.map Decimal.neg) depth s rest
  have hresult : r.map Decimal.neg = r >>= fun a => .ok a.neg := by
    cases r <;> rfl
  rw [primary_sub hat.tokens, hresult]
  exact (h.rung (by decide) hlevel hdepth hbound hat.drop_cons hstop).bind
    fun a d hd => ends_ok hd a.neg

theorem computes_complement (hlevel : 8 ≤ e.level) (h : Computes settings depth e s r) :
    Computes settings depth (.complement e) s (r >>= Arithmetic.complement) := by
  intro bound c rest hdepth hbound hc hstop
  have hat : c.IsAt depth s (.symbol .not :: (e.spelling ++ rest)) := hc
  change Ends (complemented settings (calculate settings bound) c) _ depth s rest
  rw [complemented_not hat.tokens]
  exact (h.rung (by decide) hlevel hdepth hbound hat.drop_cons hstop).bind
    fun a d hd => ends_ofExcept hd _

theorem computes_factorial (hlevel : 8 ≤ e.level) (h : Computes settings depth e s r) :
    Computes settings depth (.factorial e) s (r >>= Arithmetic.factorial settings.memory) := by
  intro bound c rest hdepth hbound hc _
  have hat : c.IsAt depth s (e.spelling ++ .symbol .factorial :: rest) := by
    simpa [Expr.spelling] using hc
  have hnext : Stops 8 (.symbol .factorial :: rest) := by
    rintro _ ⟨⟩
    decide
  change Ends (operand settings (calculate settings bound) c) _ depth s rest
  refine (h.rung (by decide) hlevel hdepth hbound hat hnext).bind fun a d hd => ?_
  rw [bind_ok (accept_cons hd.tokens)]
  exact ends_ofExcept hd.drop_cons _

theorem computes_binary {op : Symbol} {left right : Expr} {r' : Except Failure Decimal}
    (hlow : 1 ≤ op.level) (hhigh : op.level ≤ 6) (hleft : op.level < left.level)
    (hright : op.level ≤ right.level) (h : Computes settings depth left s r)
    (h' : Computes settings depth right s r') :
    Computes settings depth (.binary op left right) s (do
      let a ← r
      let b ← r'
      Arithmetic.apply settings.memory settings.precision op.family (.symbol op) a b) := by
  intro bound c rest hdepth hbound hc hstop
  have hat : c.IsAt depth s (left.spelling ++ .symbol op :: (right.spelling ++ rest)) := by
    simpa [Expr.spelling] using hc
  rw [Expr.depth] at hdepth hbound
  have hkeeps := calculate_follows settings bound
  obtain ⟨k, hk⟩ := Nat.exists_eq_add_of_le' hlow
  obtain ⟨level, hchain, hmem, hfamily⟩ :=
    rung_eq_chain settings (k := k) (by omega) (calculate settings bound)
  have hop : op ∈ level.operators := (hmem op).2 hk
  have hnext : Stops (k + 2) (.symbol op :: (right.spelling ++ rest)) := by
    rintro _ ⟨⟩
    omega
  change Ends (Eval.rung settings (calculate settings bound) op.level c) _ depth s rest
  rw [hk, hchain, chain_unfold _ _ (follows_length (rung_keeps hkeeps (k + 2)))]
  refine (h.rung (by omega) (by omega) (by omega) (by omega) hat hnext).bind fun a d hd => ?_
  rw [bind_ok (acceptOneOf_cons hd.tokens hop), ← hchain, ← hk]
  refine (h'.rung hlow hright (by omega) (by omega) hd.drop_cons hstop).bind fun b d' hd' => ?_
  rw [← hfamily op hop]
  exact ends_ofExcept hd' _

/-! ## Trees -/

theorem computesAll_of_forall {es : List Expr}
    (h : ∀ e ∈ es, e.WellFormed bodyBound ∧
      Computes settings (depth + 1) e s (e.compute settings s.values)) :
    ComputesAll settings depth es s (Expr.computeAll settings s.values es) := by
  induction es with
  | nil => exact computesAll_nil settings depth s
  | cons e es ih =>
    obtain ⟨⟨hwf, he⟩, hes⟩ := List.forall_mem_cons.1 h
    have hresult : Expr.computeAll settings s.values (e :: es) =
        e.compute settings s.values >>= fun a =>
          (Expr.computeAll settings s.values es).map (a :: ·) := by
      rw [Expr.computeAll]
      cases e.compute settings s.values <;> cases Expr.computeAll settings s.values es <;> rfl
    rw [hresult]
    exact computesAll_cons hwf he (ih hes)

end

/-- The evaluation of a tree is its computation, by induction on the tree. -/
theorem computes_of_isPure {e : Expr} {bodyBound : Nat} (h : e.IsPure)
    (hwf : e.WellFormed bodyBound) (depth : Nat) (s : Store) :
    Computes settings depth e s (e.compute settings s.values) := by
  induction h generalizing depth with
  | number value => exact computes_number depth s value
  | read name => exact computes_read depth s name
  | @group e _ ih =>
    have hchild := hwf.child List.mem_cons_self
    have hone : Expr.computeAll settings s.values [e] =
        (e.compute settings s.values).map ([·]) := by
      simp only [Expr.computeAll]
      cases e.compute settings s.values <;> rfl
    have hall : ComputesAll settings depth [e] s (Expr.computeAll settings s.values [e]) :=
      computesAll_of_forall fun e' he' => by
        obtain rfl := List.mem_singleton.1 he'
        exact ⟨hchild, ih hchild (depth + 1)⟩
    exact computes_group (hone ▸ hall)
  | call hname _ ih =>
    exact computes_call hname (computesAll_of_forall fun e he =>
      ⟨hwf.child he, ih e he (hwf.child he) (depth + 1)⟩)
  | minus _ ih =>
    have hoperand := ih (hwf.child List.mem_cons_self) depth
    cases hwf with
    | minus _ hlevel => exact computes_minus hlevel hoperand
  | complement _ ih =>
    have hoperand := ih (hwf.child List.mem_cons_self) depth
    cases hwf with
    | complement _ hlevel => exact computes_complement hlevel hoperand
  | factorial _ ih =>
    have hoperand := ih (hwf.child List.mem_cons_self) depth
    cases hwf with
    | factorial _ hlevel _ => exact computes_factorial hlevel hoperand
  | binary _ _ ihleft ihright =>
    have hfirst := ihleft (hwf.child List.mem_cons_self) depth
    have hsecond := ihright (hwf.child (List.mem_cons_of_mem _ List.mem_cons_self)) depth
    cases hwf with
    | binary hlow hhigh _ hlevel _ _ hlevel' =>
      exact computes_binary hlow hhigh hlevel hlevel' hfirst hsecond

end Eval

open Eval

section

variable {settings : Settings} {e : Expr} {bodyBound : Nat} (h : e.IsPure)
  (hwf : e.WellFormed bodyBound) (hdepth : e.depth < settings.maxDepth)
  (values : Bindings Decimal) (functions : Bindings (List Token))
include h hwf hdepth

/-- The evaluation of the spelling of a pure tree ends behind it and leaves the bindings as they
are. -/
theorem ends_evaluate_of_isPure :
    Ends (evaluate settings e.spelling values functions) (e.compute settings values) 0
      ⟨values, functions⟩ [] := by
  have hstart : (Context.start e.spelling values functions).IsAt 0 ⟨values, functions⟩
      (e.spelling ++ []) := ⟨rfl, rfl, (List.append_nil _).symm⟩
  have hlimit := settings.maxDepth_lt_expressionLimit
  exact (computes_of_isPure h hwf 0 ⟨values, functions⟩).calculate hwf.level_pos (by omega)
    (by omega) hstart (.inl rfl)

theorem evaluate_of_isPure :
    (evaluate settings e.spelling values functions).result = e.compute settings values :=
  (ends_evaluate_of_isPure h hwf hdepth values functions).1

end

end DecimalCalculator
