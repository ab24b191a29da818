import DecimalCalculator.Proofs.Evaluation.Agreement
import DecimalCalculator.Proofs.Evaluation.Soundness

/-!
# Trees are evaluated

Where the spelling of a well-formed tree stands in front, the evaluation takes just these tokens and
returns what the tree means, unless it gives up because too many expressions are open. For a tree in
the middle of an expression this needs two conditions on what follows: no sign that binds as tightly
as the level at which the tree is read, since such a sign would prolong the tree, and nothing at all
after a tree that ends in an assignment.

Together with the soundness of evaluations this gives `evaluate_eq_ok_iff_tree`: evaluating a token
sequence is the same as finding a tree that it spells, and taking the meaning of that tree.
-/
namespace DecimalCalculator

/-- The depth, the bindings and the tokens to come in a context. -/
structure Context.IsAt (c : Context) (depth : Nat) (s : Store) (ts : List Token) : Prop where
  depth : c.depth = depth
  store : c.store = s
  tokens : c.tokens = ts

/-- With these tokens to come an expression at this depth is over. -/
def Ended (depth : Nat) (ts : List Token) : Prop :=
  ts = [] ∨ depth ≠ 0 ∧
    (ts.head? = some (.symbol .parenClose) ∨ ts.head? = some (.symbol .separator))

/-- No sign in front of these tokens binds as tightly as the given level. -/
def Stops (rank : Nat) (ts : List Token) : Prop :=
  ∀ s, ts.head? = some (.symbol s) → s.level < rank

theorem Stops.mono {rank rank' : Nat} {ts : List Token} (h : Stops rank ts) (hle : rank ≤ rank') :
    Stops rank' ts :=
  fun s hs => Nat.lt_of_lt_of_le (h s hs) hle

theorem Ended.stops {depth : Nat} {ts : List Token} (h : Ended depth ts) : Stops 1 ts := by
  intro s hs
  rcases h with h | ⟨-, h | h⟩
  · rw [h] at hs
    cases hs
  all_goals
    rw [h] at hs
    cases hs
    decide

theorem Context.IsAt.drop_cons {c : Context} {depth : Nat} {s : Store} {t : Token} {ts : List Token}
    (h : c.IsAt depth s (t :: ts)) : {c with tokens := ts}.IsAt depth s ts :=
  ⟨h.depth, h.store, rfl⟩

theorem Context.IsAt.enterGroup {c : Context} {depth : Nat} {s : Store} {ts : List Token}
    (h : c.IsAt depth s ts) : c.enterGroup.IsAt (depth + 1) s ts := by
  refine ⟨?_, h.store, h.tokens⟩
  change c.depth + 1 = _
  rw [h.depth]
  rfl

theorem Context.IsAt.leaveGroup {c : Context} {depth : Nat} {s : Store} {ts : List Token}
    (h : c.IsAt (depth + 1) s ts) : c.leaveGroup.IsAt depth s ts := by
  refine ⟨?_, h.store, h.tokens⟩
  have hinside := h.depth
  change c.depth - 1 = _
  omega

theorem Context.IsAt.atEnd {c : Context} {depth : Nat} {s : Store} {ts : List Token}
    (h : c.IsAt depth s ts) (hend : Ended depth ts) : c.AtEnd := by
  rw [Context.AtEnd, h.tokens, h.depth]
  exact hend.imp_right (And.imp_left Int.natCast_ne_zero.2)

namespace Eval

open Context

variable {α β : Type} {settings : Settings}

/-- The value and the place at which a computation ends, unless it gives up. -/
def Gives (o : Outcome α) (a : α) (depth : Nat) (t : Store) (rest : List Token) : Prop :=
  (∃ d, o = .ok a d ∧ d.IsAt depth t rest) ∨ ∃ d, o = .error outOfBound d

theorem gives_ok {d : Context} {depth : Nat} {t : Store} {rest : List Token}
    (h : d.IsAt depth t rest) (a : α) : Gives (.ok a d) a depth t rest :=
  .inl ⟨d, rfl, h⟩

theorem Gives.bind {m : Eval α} {f : α → Eval β} {c : Context} {a : α} {b : β}
    {depth depth' : Nat} {t t' : Store} {rest rest' : List Token}
    (hm : Gives (m c) a depth t rest)
    (hf : ∀ d : Context, d.IsAt depth t rest → Gives (f a d) b depth' t' rest') :
    Gives ((m >>= f) c) b depth' t' rest' := by
  rcases hm with ⟨d, h, hd⟩ | ⟨d, h⟩
  · rw [bind_ok h]
    exact hf d hd
  · rw [bind_error h]
    exact .inr ⟨d, rfl⟩

theorem Gives.mapContext {o : Outcome α} {a : α} {depth depth' : Nat} {t t' : Store}
    {rest rest' : List Token} {f : Context → Context} (h : Gives o a depth t rest)
    (hf : ∀ d : Context, d.IsAt depth t rest → (f d).IsAt depth' t' rest') :
    Gives (Outcome.mapContext f o) a depth' t' rest' := by
  rcases h with ⟨d, rfl, hd⟩ | ⟨d, rfl⟩
  · exact gives_ok (hf d hd) a
  · exact .inr ⟨f d, rfl⟩

/-! ## Reading a tree at a lower level -/

/-- The evaluation of trees of the given level or above. -/
def rung (settings : Settings) (inner : Eval Decimal) : Nat → Eval Decimal
  | 9 => primary settings inner
  | 8 => complemented settings inner
  | rank => cascade settings inner (levels.drop (rank - 1))

theorem rung_eq_chain (settings : Settings) {k : Nat} (h : k < 6) (inner : Eval Decimal) :
    ∃ level : Level, rung settings inner (k + 1) =
        chain level.operators
          (fun op => Arithmetic.apply settings.memory settings.precision level.family (.symbol op))
          (rung settings inner (k + 2)) ∧
      (∀ op, op ∈ level.operators ↔ op.level = k + 1) ∧
      ∀ op ∈ level.operators, op.family = level.family := by
  have hcascade (j : Nat) (hj : j ≤ 6) :
      rung settings inner (j + 1) = cascade settings inner (levels.drop j) := by
    unfold rung
    split
    · omega
    · omega
    · rw [Nat.add_sub_cancel]
  obtain ⟨level, hdrop, hmem, hfamily⟩ := drop_levels h
  refine ⟨level, ?_, hmem, hfamily⟩
  rw [hcascade k (by omega), hcascade (k + 1) (by omega), hdrop]
  rfl

theorem rung_keeps {inner : Eval Decimal} (hkeeps : Keeps Follows inner) (rank : Nat) :
    Keeps Follows (rung settings inner rank) := by
  have hstable := stable_follows settings
  unfold rung
  split
  · exact hstable.primary hkeeps
  · exact hstable.complemented hkeeps
  · exact hstable.cascade hkeeps _

/-- What the next rung gives a rung gives too, if no sign of its own follows or stands in front. -/
theorem Gives.lower {inner : Eval Decimal} (hkeeps : Keeps Follows inner) {rank : Nat} {c : Context}
    {a : Decimal} {depth : Nat} {t : Store} {rest : List Token}
    (h : Gives (rung settings inner (rank + 1) c) a depth t rest) (hlow : 1 ≤ rank)
    (hhigh : rank ≤ 8) (hstop : Stops rank rest)
    (hfront : rank = 8 → c.tokens.head? ≠ some (.symbol .not)) :
    Gives (rung settings inner rank c) a depth t rest := by
  obtain rfl | rfl | hbinary : rank = 8 ∨ rank = 7 ∨ rank ≤ 6 := by omega
  · change Gives (complemented settings inner c) a depth t rest
    rw [complemented_of_ne (hfront rfl)]
    exact h
  · change Gives (operand settings inner c) a depth t rest
    refine h.bind fun d hd => ?_
    have hne : d.tokens.head? ≠ some (.symbol .factorial) := by
      rw [hd.tokens]
      exact fun hs => absurd (hstop _ hs) (by decide)
    rw [bind_ok (accept_of_ne hne)]
    exact gives_ok hd a
  · obtain ⟨k, rfl⟩ := Nat.exists_eq_add_of_le' hlow
    obtain ⟨level, hchain, hmem, -⟩ := rung_eq_chain settings (k := k) (by omega) inner
    rw [hchain, chain_unfold _ _ (follows_length (rung_keeps hkeeps (k + 2)))]
    refine h.bind fun d hd => ?_
    have hnone : ∀ op more, d.tokens = .symbol op :: more → op ∉ level.operators := by
      intro op more hop hops
      have hlevel := (hmem op).1 hops
      have hlt := hstop op (by rw [← hd.tokens, hop]; rfl)
      omega
    rw [bind_ok (acceptOneOf_of_notMem hnone)]
    exact gives_ok hd a

/-- Evaluating at the level of the tree takes its tokens and gives its value. -/
def Runs (settings : Settings) (depth : Nat) (e : Expr) (s : Store) (a : Decimal) (t : Store) :
    Prop :=
  ∀ (bound : Nat) (c : Context) (rest : List Token), depth < settings.maxDepth →
    c.IsAt depth s (e.spelling ++ rest) → Stops e.level rest → (e.EndsOpen → Ended depth rest) →
    Gives (rung settings (calculate settings bound) e.level c) a depth t rest

/-- A tree can be read at every level up to its own. -/
theorem Runs.rung {depth : Nat} {e : Expr} {s t : Store} {a : Decimal}
    (h : Runs settings depth e s a t) {rank : Nat} (hlow : 1 ≤ rank) (hle : rank ≤ e.level)
    (bound : Nat) {c : Context} {rest : List Token} (hdepth : depth < settings.maxDepth)
    (hc : c.IsAt depth s (e.spelling ++ rest)) (hstop : Stops rank rest)
    (hend : e.EndsOpen → Ended depth rest) :
    Gives (rung settings (calculate settings bound) rank c) a depth t rest := by
  induction hgap : e.level - rank generalizing rank with
  | zero =>
    obtain rfl : rank = e.level := by omega
    exact h bound c rest hdepth hc hstop hend
  | succ gap ih =>
    have hnine := e.level_le
    refine (ih (by omega) (by omega) (hstop.mono (Nat.le_succ rank)) (by omega)).lower
      (calculate_follows settings bound) hlow (by omega) hstop ?_
    intro hrank
    rw [hc.tokens, e.head?_spelling_append]
    exact Expr.head?_spelling_ne_not (by omega)

/-- A tree that stands before the end of an expression is the whole expression. -/
theorem Runs.calculate {depth : Nat} {e : Expr} {s t : Store} {a : Decimal}
    (h : Runs settings depth e s a t) (hlevel : 1 ≤ e.level) (bound : Nat) {c : Context}
    {rest : List Token} (hdepth : depth < settings.maxDepth)
    (hc : c.IsAt depth s (e.spelling ++ rest)) (hend : Ended depth rest) :
    Gives (calculate settings bound c) a depth t rest := by
  cases bound with
  | zero => exact .inr ⟨c, rfl⟩
  | succ bound =>
    have hlt : c.depth < settings.maxDepth := by
      rw [hc.depth]
      exact Int.ofNat_lt.2 hdepth
    change Gives (expression settings (Eval.calculate settings bound) c) a depth t rest
    rw [expression_of_lt hlt]
    refine (h.rung (Nat.le_refl 1) hlevel bound hdepth hc hend.stops fun _ => hend).bind
      fun d hd => ?_
    rw [bind_ok (finish_of_atEnd (hd.atEnd hend))]
    exact gives_ok hd a

/-! ## Arguments -/

/-- Evaluating arguments takes their tokens and gives their values, after the first of them has been
evaluated or from the beginning. -/
structure RunsAll (settings : Settings) (depth : Nat) (es : List Expr) (s : Store)
    (actuals : List Decimal) (t : Store) : Prop where
  rest : ∀ (bound : Nat) (c : Context) (after : List Token),
    c.IsAt (depth + 1) s (Expr.spellingRest es ++ .symbol .parenClose :: after) →
    Gives (allOperands [.separator] (calculate settings bound) c)
      (actuals.map (Prod.mk .separator)) (depth + 1) t (.symbol .parenClose :: after)
  all : ∀ (bound : Nat) (c : Context) (after : List Token),
    c.IsAt depth s (Expr.spellingAll es ++ .symbol .parenClose :: after) →
    Gives (arguments (calculate settings bound) c) actuals depth t after

theorem runsAll_nil (settings : Settings) (depth : Nat) (s : Store) :
    RunsAll settings depth [] s [] s where
  rest bound c after hc := by
    rw [allOperands_unfold _ (follows_length (calculate_follows settings bound))]
    have hnone : ∀ op more, c.tokens = .symbol op :: more → op ∉ [Symbol.separator] := by
      intro op more hop
      rw [hc.tokens] at hop
      cases hop
      decide
    rw [bind_ok (acceptOneOf_of_notMem hnone)]
    exact gives_ok hc []
  all bound c after hc := by
    rw [arguments_empty hc.tokens]
    exact gives_ok (Context.IsAt.drop_cons hc) []

/-- Behind an argument stands a separator or the parenthesis that closes the arguments. -/
theorem ended_spellingRest (depth : Nat) (es : List Expr) (after : List Token) :
    Ended (depth + 1) (Expr.spellingRest es ++ .symbol .parenClose :: after) := by
  refine .inr ⟨Nat.succ_ne_zero depth, ?_⟩
  cases es with
  | nil => exact .inl rfl
  | cons e es => exact .inr rfl

theorem runsAll_cons {depth : Nat} {e : Expr} {es : List Expr} {s t u : Store} {a : Decimal}
    {actuals : List Decimal} (hdepth : depth + 1 < settings.maxDepth)
    (hwf : e.WellFormed settings.maxDepth) (he : Runs settings (depth + 1) e s a t)
    (hes : RunsAll settings depth es t actuals u) :
    RunsAll settings depth (e :: es) s (a :: actuals) u where
  rest bound c after hc := by
    rw [Expr.spellingRest, List.cons_append, List.cons_append, List.append_assoc] at hc
    rw [allOperands_unfold _ (follows_length (calculate_follows settings bound)),
      bind_ok (acceptOneOf_cons hc.tokens List.mem_cons_self)]
    refine (he.calculate hwf.level_pos bound hdepth hc.drop_cons
      (ended_spellingRest depth es after)).bind fun d hd => ?_
    exact (hes.rest bound d after hd).bind fun d' hd' => gives_ok hd' _
  all bound c after hc := by
    rw [Expr.spellingAll, List.append_assoc] at hc
    have hfront : c.tokens.head? ≠ some (.symbol .parenClose) := by
      rw [hc.tokens, e.head?_spelling_append]
      exact hwf.head?_ne_parenClose
    rw [arguments_items hfront]
    have hitems : Gives (items (calculate settings bound) c.enterGroup) (a :: actuals) (depth + 1) u
        (.symbol .parenClose :: after) := by
      refine (he.calculate hwf.level_pos bound hdepth hc.enterGroup
        (ended_spellingRest depth es after)).bind fun d hd => ?_
      refine (hes.rest bound d after hd).bind fun d' hd' => ?_
      have hsnd : (actuals.map (Prod.mk Symbol.separator)).map Prod.snd = actuals :=
        List.map_map.trans (List.map_id actuals)
      rw [hsnd]
      exact gives_ok hd' _
    have hgroup : Gives (inGroup (items (calculate settings bound)) c) (a :: actuals) depth u
        (.symbol .parenClose :: after) := by
      rw [inGroup_apply]
      exact hitems.mapContext fun d hd => hd.leaveGroup
    refine hgroup.bind fun d hd => ?_
    rw [close_cons _ hd.tokens]
    exact gives_ok hd.drop_cons _

/-! ## Atoms -/

theorem runs_of_atom {depth : Nat} {e : Expr} {s t : Store} {a : Decimal} (hlevel : e.level = 9)
    (hfront : e.spelling.head? ≠ some (.symbol .sub))
    (h : ∀ (bound : Nat) (c : Context) (rest : List Token), depth < settings.maxDepth →
      c.IsAt depth s (e.spelling ++ rest) → (e.EndsOpen → Ended depth rest) →
      Gives (atom settings (calculate settings bound) c) a depth t rest) :
    Runs settings depth e s a t := by
  intro bound c rest hdepth hc _ hend
  rw [hlevel]
  change Gives (primary settings (calculate settings bound) c) a depth t rest
  rw [primary_of_ne]
  · exact h bound c rest hdepth hc hend
  · rwa [hc.tokens, e.head?_spelling_append]

theorem runs_number (depth : Nat) (s : Store) (a : Decimal) :
    Runs settings depth (.number a) s a s := by
  refine runs_of_atom rfl (by simp [Expr.spelling]) fun bound c rest _ hc _ => ?_
  rw [atom_number hc.tokens]
  exact gives_ok hc.drop_cons a

theorem runs_read (depth : Nat) {s : Store} {name : String} {a : Decimal}
    (hvalue : s.values.get? name = some a) : Runs settings depth (.read name) s a s := by
  refine runs_of_atom rfl (by simp [Expr.spelling]) fun bound c rest _ hc _ => ?_
  have hget : c.values.get? name = some a := by
    rw [← hvalue, ← hc.store]
    rfl
  rw [atom_read hc.tokens, lookup, hget]
  exact gives_ok hc.drop_cons a

theorem runs_group {depth : Nat} {e : Expr} {s t : Store} {a : Decimal}
    (h : RunsAll settings depth [e] s [a] t) : Runs settings depth (.group e) s a t := by
  refine runs_of_atom rfl (by simp [Expr.spelling]) fun bound c rest _ hc _ => ?_
  have hat : c.IsAt depth s
      (.symbol .parenOpen :: (Expr.spellingAll [e] ++ .symbol .parenClose :: rest)) := by
    simpa [Expr.spelling, Expr.spellingAll, Expr.spellingRest] using hc
  rw [atom_group hat.tokens]
  exact (h.all bound _ rest hat.drop_cons).bind fun d hd => gives_ok hd a

/-- A call that gives a value whenever its arguments have been evaluated. -/
theorem runs_call {depth : Nat} {name : String} {es : List Expr} {s t u : Store}
    {actuals : List Decimal} {a : Decimal} (h : RunsAll settings depth es s actuals t)
    (hcall : ∀ (bound : Nat) (d : Context) (rest : List Token), d.IsAt depth t rest →
      Gives (call settings (calculate settings bound) name actuals d) a depth u rest) :
    Runs settings depth (.call name es) s a u := by
  refine runs_of_atom rfl (by simp [Expr.spelling]) fun bound c rest _ hc _ => ?_
  have hat : c.IsAt depth s (.call name :: .symbol .parenOpen ::
      (Expr.spellingAll es ++ .symbol .parenClose :: rest)) := by
    simpa [Expr.spelling] using hc
  rw [atom_call hat.tokens]
  exact (h.all bound _ rest hat.drop_cons.drop_cons).bind fun d hd => hcall bound d rest hd

theorem gives_call_user {depth : Nat} {name : String} {t u : Store} {actuals : List Decimal}
    {body : Expr} {a : Decimal} (habs : name ≠ "abs") (hpow : name ≠ "pow")
    (hbody : t.functions.get? name = some body.spelling) (hwf : body.WellFormed settings.maxDepth)
    (hdepth : depth + 1 < settings.maxDepth)
    (h : Runs settings (depth + 1) body (t.enter actuals) a u) (bound : Nat) {d : Context}
    {rest : List Token} (hd : d.IsAt depth t rest) :
    Gives (call settings (calculate settings bound) name actuals d) a depth (u.leave actuals.length)
      rest := by
  have hget : d.functions.get? name = some body.spelling := by
    rw [← hbody, ← hd.store]
    rfl
  have henter : (d.enterBody name body.spelling actuals).IsAt (depth + 1) (t.enter actuals)
      (body.spelling ++ []) := by
    refine ⟨?_, ?_, (List.append_nil body.spelling).symm⟩
    · change d.depth + 1 = _
      rw [hd.depth]
      rfl
    · rw [← hd.store]
      rfl
  rw [call_user habs hpow hget, callBody_apply]
  refine (h.calculate hwf.level_pos bound hdepth henter (.inl rfl)).mapContext fun d' hd' => ?_
  refine ⟨hd.depth, ?_, hd.tokens⟩
  rw [← hd'.store]
  rfl

theorem runs_assign {depth : Nat} {e : Expr} {s t : Store} {a : Decimal} (name : String)
    (hwf : e.WellFormed settings.maxDepth)
    (hfront : e.spelling.head? ≠ some (.symbol .parenOpen))
    (h : Runs settings depth e s a t) :
    Runs settings depth (.assign name e) s Decimal.zero (t.assign name a) := by
  refine runs_of_atom rfl (by simp [Expr.spelling]) fun bound c rest hdepth hc hend => ?_
  have hat : c.IsAt depth s (.assign name :: (e.spelling ++ rest)) := hc
  rw [atom_assign hat.tokens (by rwa [e.head?_spelling_append])]
  refine (h.calculate hwf.level_pos bound hdepth hat.drop_cons (hend trivial)).bind fun d hd => ?_
  refine gives_ok (d := {d with values := d.values.insert name a}) ⟨hd.depth, ?_, hd.tokens⟩ _
  rw [← hd.store]
  rfl

theorem runs_define (depth : Nat) (s : Store) (name : String) {body : List Token}
    (hbody : IsBody settings.maxDepth body) :
    Runs settings depth (.define name body) s Decimal.zero (s.define name body) := by
  refine runs_of_atom rfl (by simp [Expr.spelling]) fun bound c rest _ hc _ => ?_
  have hat : c.IsAt depth s
      (.assign name :: .symbol .parenOpen :: (body ++ .symbol .parenClose :: rest)) := by
    simpa [Expr.spelling] using hc
  have hcap : capture settings.maxDepth 1 (body ++ .symbol .parenClose :: rest) =
      (.ok body, rest) :=
    capture_eq_ok_iff.2 ⟨rfl, hbody⟩
  rw [atom_define hat.tokens, bind_ok (define_of_capture_ok name
    (c := {c with tokens := body ++ .symbol .parenClose :: rest}) hcap)]
  have hafter : ({c with tokens := rest, functions := c.functions.insert name body}.record
      (.define name body.length)).IsAt depth (s.define name body) rest := by
    refine ⟨hat.depth, ?_, rfl⟩
    rw [← hat.store]
    rfl
  exact gives_ok hafter Decimal.zero

/-! ## Signs and operators -/

theorem runs_minus {depth : Nat} {e : Expr} {s t : Store} {a : Decimal} (hlevel : 9 ≤ e.level)
    (h : Runs settings depth e s a t) : Runs settings depth (.minus e) s a.neg t := by
  intro bound c rest hdepth hc hstop hend
  have hat : c.IsAt depth s (.symbol .sub :: (e.spelling ++ rest)) := hc
  change Gives (primary settings (calculate settings bound) c) a.neg depth t rest
  rw [primary_sub hat.tokens]
  exact (h.rung (by decide) hlevel bound hdepth hat.drop_cons hstop hend).bind
    fun d hd => gives_ok hd a.neg

theorem runs_complement {depth : Nat} {e : Expr} {s t : Store} {a r : Decimal}
    (hlevel : 8 ≤ e.level) (h : Runs settings depth e s a t)
    (hresult : Arithmetic.complement a = .ok r) : Runs settings depth (.complement e) s r t := by
  intro bound c rest hdepth hc hstop hend
  have hat : c.IsAt depth s (.symbol .not :: (e.spelling ++ rest)) := hc
  change Gives (complemented settings (calculate settings bound) c) r depth t rest
  rw [complemented_not hat.tokens]
  refine (h.rung (by decide) hlevel bound hdepth hat.drop_cons hstop hend).bind fun d hd => ?_
  rw [hresult]
  exact gives_ok hd r

theorem runs_factorial {depth : Nat} {e : Expr} {s t : Store} {a r : Decimal}
    (hlevel : 8 ≤ e.level) (hopen : ¬e.EndsOpen) (h : Runs settings depth e s a t)
    (hresult : Arithmetic.factorial settings.memory a = .ok r) :
    Runs settings depth (.factorial e) s r t := by
  intro bound c rest hdepth hc hstop hend
  have hat : c.IsAt depth s (e.spelling ++ .symbol .factorial :: rest) := by
    simpa [Expr.spelling] using hc
  have hnext : Stops 8 (.symbol .factorial :: rest) := by
    rintro _ ⟨⟩
    decide
  change Gives (operand settings (calculate settings bound) c) r depth t rest
  refine (h.rung (by decide) hlevel bound hdepth hat hnext (absurd · hopen)).bind fun d hd => ?_
  rw [bind_ok (accept_cons hd.tokens)]
  change Gives (ofExcept (Arithmetic.factorial settings.memory a) _) r depth t rest
  rw [hresult]
  exact gives_ok hd.drop_cons r

theorem runs_binary {depth : Nat} {op : Symbol} {left right : Expr} {s t u : Store}
    {a b r : Decimal} (hlow : 1 ≤ op.level) (hhigh : op.level ≤ 6) (hleft : op.level < left.level)
    (hopen : ¬left.EndsOpen) (hright : op.level ≤ right.level) (h : Runs settings depth left s a t)
    (h' : Runs settings depth right t b u)
    (hresult :
      Arithmetic.apply settings.memory settings.precision op.family (.symbol op) a b = .ok r) :
    Runs settings depth (.binary op left right) s r u := by
  intro bound c rest hdepth hc hstop hend
  have hat : c.IsAt depth s (left.spelling ++ .symbol op :: (right.spelling ++ rest)) := by
    simpa [Expr.spelling] using hc
  have hkeeps := calculate_follows settings bound
  obtain ⟨k, hk⟩ := Nat.exists_eq_add_of_le' hlow
  obtain ⟨level, hchain, hmem, hfamily⟩ :=
    rung_eq_chain settings (k := k) (by omega) (calculate settings bound)
  have hop : op ∈ level.operators := (hmem op).2 hk
  have hnext : Stops (k + 2) (.symbol op :: (right.spelling ++ rest)) := by
    rintro _ ⟨⟩
    omega
  change Gives (Eval.rung settings (calculate settings bound) op.level c) r depth u rest
  rw [hk, hchain, chain_unfold _ _ (follows_length (rung_keeps hkeeps (k + 2)))]
  refine (h.rung (by omega) (by omega) bound hdepth hat hnext (absurd · hopen)).bind fun d hd => ?_
  rw [bind_ok (acceptOneOf_cons hd.tokens hop), ← hchain, ← hk]
  refine (h'.rung hlow hright bound hdepth hd.drop_cons hstop hend).bind fun d' hd' => ?_
  rw [← hfamily op hop, hresult]
  exact gives_ok hd' r

end Eval

open Eval

variable {settings : Settings}

mutual

/-- By induction on the meaning of the tree. -/
theorem Evaluates.runs {depth : Nat} {e : Expr} {s t : Store} {a : Decimal}
    (h : Evaluates settings depth e s a t) (hwf : e.WellFormed settings.maxDepth) :
    Runs settings depth e s a t := by
  match h with
  | .number a => exact runs_number depth s a
  | .read hvalue => exact runs_read depth hvalue
  | .group hdepth he =>
    have hchild := hwf.child List.mem_cons_self
    exact runs_group (runsAll_cons hdepth hchild (he.runs hchild) (runsAll_nil _ _ _))
  | .abs hes =>
    have hall := hes.runs fun e he => hwf.child he
    exact runs_call hall fun bound d rest hd => gives_ok hd _
  | .pow hes hresult =>
    have hall := hes.runs fun e he => hwf.child he
    refine runs_call hall fun bound d rest hd => ?_
    change Gives (ofExcept (Arithmetic.power _ _ _ _) d) _ _ _ _
    rw [hresult]
    exact gives_ok hd _
  | .call habs hpow hes hbody hwfbody hdepth he =>
    have hall := hes.runs fun e he => hwf.child he
    have hinside := he.runs hwfbody
    exact runs_call hall fun bound d rest hd =>
      gives_call_user habs hpow hbody hwfbody hdepth hinside bound hd
  | .assign name he =>
    have hoperand := he.runs (hwf.child List.mem_cons_self)
    cases hwf with
    | assign _ hwf hfront => exact runs_assign name hwf hfront hoperand
  | .define name body =>
    cases hwf with
    | define _ hbody => exact runs_define depth s name hbody
  | .minus he =>
    have hoperand := he.runs (hwf.child List.mem_cons_self)
    cases hwf with
    | minus _ hlevel => exact runs_minus hlevel hoperand
  | .complement he hresult =>
    have hoperand := he.runs (hwf.child List.mem_cons_self)
    cases hwf with
    | complement _ hlevel => exact runs_complement hlevel hoperand hresult
  | .factorial he hresult =>
    have hoperand := he.runs (hwf.child List.mem_cons_self)
    cases hwf with
    | factorial _ hlevel hopen => exact runs_factorial hlevel hopen hoperand hresult
  | .binary hleft hright hresult =>
    have hfirst := hleft.runs (hwf.child List.mem_cons_self)
    have hsecond := hright.runs (hwf.child (List.mem_cons_of_mem _ List.mem_cons_self))
    cases hwf with
    | binary hlow hhigh _ hlevel hopen _ hlevel' =>
      exact runs_binary hlow hhigh hlevel hopen hlevel' hfirst hsecond hresult
termination_by structural h

theorem EvaluatesAll.runs {depth : Nat} {es : List Expr} {s t : Store} {actuals : List Decimal}
    (h : EvaluatesAll settings depth es s actuals t)
    (hwf : ∀ e ∈ es, e.WellFormed settings.maxDepth) : RunsAll settings depth es s actuals t := by
  match h with
  | .nil => exact runsAll_nil settings depth s
  | .cons hdepth he hes =>
    have hfirst := hwf _ List.mem_cons_self
    have hrest := hes.runs fun e he => hwf e (List.mem_cons_of_mem _ he)
    exact runsAll_cons hdepth hfirst (he.runs hfirst) hrest
termination_by structural h

end

/-- Unless too many expressions are open at a time, evaluating a token sequence returns a value and
leaves bindings exactly when the sequence spells a well-formed tree that has this value and leaves
these bindings. -/
theorem evaluate_eq_ok_iff_tree (settings : Settings) (tokens : List Token)
    (values : Bindings Decimal) (functions : Bindings (List Token))
    (hclosed : ∀ name body, functions.get? name = some body → IsClosed body)
    (hbound : ∀ c, evaluate settings tokens values functions ≠ .error outOfBound c)
    (a : Decimal) (values' : Bindings Decimal) (functions' : Bindings (List Token)) :
    (∃ c, evaluate settings tokens values functions = .ok a c ∧ c.values = values' ∧
        c.functions = functions') ↔
      ∃ e : Expr, e.WellFormed settings.maxDepth ∧ e.spelling = tokens ∧
        Evaluates settings 0 e ⟨values, functions⟩ a ⟨values', functions'⟩ := by
  constructor
  · rintro ⟨c, hresult, rfl, rfl⟩
    obtain ⟨-, hend, e, he⟩ := calculate_sound settings settings.expressionLimit
      (Context.start tokens values functions) a c hclosed hresult
    have hdepth : c.depth = 0 := he.depth
    have hnil : c.tokens = [] := hend.resolve_right fun h => h.1 hdepth
    have htokens : tokens = e.spelling ++ c.tokens := he.tokens
    rw [hnil, List.append_nil] at htokens
    exact ⟨e, he.wellFormed, htokens.symm, he.evaluates 0 rfl⟩
  · rintro ⟨e, hwf, rfl, he⟩
    have hstart : (Context.start e.spelling values functions).IsAt 0 ⟨values, functions⟩
        (e.spelling ++ []) := ⟨rfl, rfl, (List.append_nil _).symm⟩
    obtain ⟨c, hresult, hc⟩ | ⟨c, hresult⟩ := (he.runs hwf).calculate hwf.level_pos
      settings.expressionLimit settings.maxDepth_pos hstart (.inl rfl)
    · exact ⟨c, hresult, congrArg Store.values hc.store, congrArg Store.functions hc.store⟩
    · exact absurd hresult (hbound c)

def doubling : Bindings (List Token) :=
  Bindings.empty.insert "f" [.read "$1", .symbol .mul, .number (.finite false 2 0)]

def doubled : List Token :=
  [.call "f", .symbol .parenOpen, .number (.finite false 3 0), .symbol .parenClose, .symbol .sub,
    .assign "x", .number (.finite false 7 0)]

theorem exists_tree_of_doubled :
    (∀ name body, doubling.get? name = some body → IsClosed body) ∧
      (∀ c, evaluate Settings.default doubled .empty doubling ≠ .error outOfBound c) ∧
      ∃ e : Expr, e.WellFormed Settings.default.maxDepth ∧ e.spelling = doubled ∧
        Evaluates Settings.default 0 e ⟨.empty, doubling⟩ (.finite false 6 0)
          ⟨Bindings.empty.insert "x" (.finite false 7 0), doubling⟩ := by
  have hclosed : ∀ name body, doubling.get? name = some body → IsClosed body := by
    intro name body h
    rw [doubling, Bindings.get?_insert] at h
    split at h
    · cases h
      decide
    · cases h
  have hresult : (Outcome.result (evaluate Settings.default doubled .empty doubling)).toOption =
      some (.finite false 6 0) := by
    decide +kernel
  have hstore : (Outcome.context (evaluate Settings.default doubled .empty doubling)).values =
        Bindings.empty.insert "x" (.finite false 7 0) ∧
      (Outcome.context (evaluate Settings.default doubled .empty doubling)).functions =
        doubling := by
    decide +kernel
  have hreturns := Outcome.eq_ok_of_toOption hresult
  have hbound : ∀ c, evaluate Settings.default doubled .empty doubling ≠ .error outOfBound c := by
    intro c h
    rw [hreturns] at h
    cases h
  exact ⟨hclosed, hbound, (evaluate_eq_ok_iff_tree Settings.default doubled .empty doubling hclosed
    hbound _ _ _).1 ⟨_, hreturns, hstore⟩⟩

end DecimalCalculator
