import DecimalCalculator.Arithmetic.Operator
import DecimalCalculator.Proofs.Syntax.Nesting

/-!
# Syntax trees

The trees that token sequences spell. Nine levels lie above one another: six of binary operators,
the factorial sign, the complement sign, and at the top the minus sign and the atoms. A tree is
well-formed when every operand binds tightly enough for its place: the left operand of a binary
operator more tightly than the operator, the right one at least as tightly, so that operators of one
level group to the right.

An assignment takes everything to its right. A tree that ends in one can therefore stand at the
right end of an operand, but not to the left of an operator or under a factorial sign. A definition
keeps its body as tokens, since a body is read only when it is called.
-/
namespace DecimalCalculator

/-- How tightly an infix or postfix sign binds. Signs of other kinds have the level zero. -/
def Symbol.level : Symbol → Nat
  | .xor => 1
  | .or => 2
  | .and => 3
  | .shiftLeft | .shiftRight => 4
  | .add | .sub => 5
  | .mul | .div => 6
  | .factorial => 7
  | .not | .parenOpen | .parenClose | .separator => 0

def Symbol.family : Symbol → OperatorFamily
  | .xor | .or | .and => .bitwise
  | .shiftLeft | .shiftRight => .shift
  | _ => .arithmetic

inductive Expr where
  | number (value : Decimal)
  | read (name : String)
  | group (e : Expr)
  | call (name : String) (arguments : List Expr)
  | assign (name : String) (e : Expr)
  | define (name : String) (body : List Token)
  | minus (e : Expr)
  | complement (e : Expr)
  | factorial (e : Expr)
  | binary (op : Symbol) (left right : Expr)

namespace Expr

mutual

def spelling : Expr → List Token
  | number value => [.number value]
  | read name => [.read name]
  | group e => .symbol .parenOpen :: e.spelling ++ [.symbol .parenClose]
  | call name es =>
    .call name :: .symbol .parenOpen :: spellingAll es ++ [.symbol .parenClose]
  | assign name e => .assign name :: e.spelling
  | define name body =>
    .assign name :: .symbol .parenOpen :: body ++ [.symbol .parenClose]
  | minus e => .symbol .sub :: e.spelling
  | complement e => .symbol .not :: e.spelling
  | factorial e => e.spelling ++ [.symbol .factorial]
  | binary op left right => left.spelling ++ .symbol op :: right.spelling

def spellingAll : List Expr → List Token
  | [] => []
  | e :: es => e.spelling ++ spellingRest es

/-- The tokens of the arguments after the first, each behind a separator. -/
def spellingRest : List Expr → List Token
  | [] => []
  | e :: es => .symbol .separator :: e.spelling ++ spellingRest es

end

/-- How tightly a tree holds together. -/
def level : Expr → Nat
  | binary op _ _ => op.level
  | factorial _ => 7
  | complement _ => 8
  | _ => 9

/-- The tree ends in an assignment, which would take any token that followed. -/
def EndsOpen : Expr → Prop
  | assign _ _ => True
  | minus e | complement e => e.EndsOpen
  | binary _ _ right => right.EndsOpen
  | _ => False

def children : Expr → List Expr
  | number _ | read _ | define _ _ => []
  | group e | assign _ e | minus e | complement e | factorial e => [e]
  | call _ es => es
  | binary _ left right => [left, right]

/-- Every part of the tree can stand where it does. The bound is that on the depth of bodies. -/
inductive WellFormed (bound : Nat) : Expr → Prop
  | number (value : Decimal) : WellFormed bound (.number value)
  | read (name : String) : WellFormed bound (.read name)
  | group {e : Expr} : WellFormed bound e → WellFormed bound (.group e)
  | call (name : String) {es : List Expr} :
    (∀ e ∈ es, WellFormed bound e) → WellFormed bound (.call name es)
  | assign (name : String) {e : Expr} : WellFormed bound e →
    e.spelling.head? ≠ some (.symbol .parenOpen) → WellFormed bound (.assign name e)
  | define (name : String) {body : List Token} :
    IsBody bound body → WellFormed bound (.define name body)
  | minus {e : Expr} : WellFormed bound e → 9 ≤ e.level → WellFormed bound (.minus e)
  | complement {e : Expr} : WellFormed bound e → 8 ≤ e.level → WellFormed bound (.complement e)
  | factorial {e : Expr} : WellFormed bound e → 8 ≤ e.level → ¬e.EndsOpen →
    WellFormed bound (.factorial e)
  | binary {op : Symbol} {left right : Expr} : 1 ≤ op.level → op.level ≤ 6 →
    WellFormed bound left → op.level < left.level → ¬left.EndsOpen →
    WellFormed bound right → op.level ≤ right.level → WellFormed bound (.binary op left right)

theorem spelling_ne_nil (e : Expr) : e.spelling ≠ [] := by
  cases e <;> simp [spelling]

theorem level_le (e : Expr) : e.level ≤ 9 := by
  cases e with
  | binary op left right => cases op <;> simp [level, Symbol.level]
  | _ => simp [level]

theorem WellFormed.child {bound : Nat} {e e' : Expr} (h : WellFormed bound e)
    (he : e' ∈ e.children) : WellFormed bound e' := by
  cases h with
  | number value => cases he
  | read name => cases he
  | group h => exact List.mem_singleton.1 he ▸ h
  | call name h => exact h e' he
  | assign name h _ => exact List.mem_singleton.1 he ▸ h
  | define name _ => cases he
  | minus h _ => exact List.mem_singleton.1 he ▸ h
  | complement h _ => exact List.mem_singleton.1 he ▸ h
  | factorial h _ _ => exact List.mem_singleton.1 he ▸ h
  | binary _ _ hleft _ _ hright _ =>
    rcases List.mem_cons.1 he with rfl | he
    · exact hleft
    · exact List.mem_singleton.1 he ▸ hright

theorem WellFormed.level_pos {bound : Nat} {e : Expr} (h : WellFormed bound e) : 1 ≤ e.level := by
  cases h with
  | binary hlow => exact hlow
  | _ => simp [level]

/-- Only a complement begins with its sign among the trees that need not lie below one. -/
theorem head?_spelling_ne_not {e : Expr} (h : 9 ≤ e.level) :
    e.spelling.head? ≠ some (.symbol .not) := by
  cases e with
  | binary op left right => cases op <;> simp [level, Symbol.level] at h
  | factorial e => simp [level] at h
  | complement e => simp [level] at h
  | _ => simp [spelling]

theorem nest_symbol_of_level {op : Symbol} (h : 1 ≤ op.level) (opened : Nat) :
    Token.nest opened (.symbol op) = some opened := by
  cases op <;> first | rfl | exact absurd h (by decide)

theorem nesting_spellingRest {es : List Expr} (h : ∀ e ∈ es, IsClosed e.spelling) :
    nesting 1 (spellingRest es) = some 1 := by
  induction es with
  | nil => rfl
  | cons e es ih =>
    have he : nesting 1 e.spelling = some 1 := (h e List.mem_cons_self).nesting 1
    have hes := ih fun e' he' => h e' (List.mem_cons_of_mem e he')
    rw [spellingRest, List.cons_append, nesting_cons, Token.nest, if_neg Nat.one_ne_zero,
      Option.bind_some, nesting_append, he]
    exact hes

theorem nesting_spellingAll {es : List Expr} (h : ∀ e ∈ es, IsClosed e.spelling) :
    nesting 1 (spellingAll es) = some 1 := by
  cases es with
  | nil => rfl
  | cons e es =>
    have he : nesting 1 e.spelling = some 1 := (h e List.mem_cons_self).nesting 1
    rw [spellingAll, nesting_append, he]
    exact nesting_spellingRest fun e' he' => h e' (List.mem_cons_of_mem e he')

/-- In the tokens of a tree parentheses match, and separators stand between arguments only. -/
theorem WellFormed.isClosed {bound : Nat} {e : Expr} (h : WellFormed bound e) :
    IsClosed e.spelling := by
  induction h with
  | number value => exact isClosed_nil.cons rfl
  | read name => exact isClosed_nil.cons rfl
  | group _ ih =>
    rw [spelling]
    exact isClosed_group (ih.nesting 1) isClosed_nil
  | call name _ ih =>
    rw [spelling]
    exact (isClosed_group (nesting_spellingAll ih) isClosed_nil).cons rfl
  | assign name _ _ ih =>
    rw [spelling]
    exact ih.cons rfl
  | define name hbody =>
    rw [spelling]
    exact (isClosed_group (hbody.1.nesting 1) isClosed_nil).cons rfl
  | minus _ _ ih =>
    rw [spelling]
    exact ih.cons rfl
  | complement _ _ ih =>
    rw [spelling]
    exact ih.cons rfl
  | factorial _ _ _ ih =>
    rw [spelling]
    exact ih.append (isClosed_nil.cons rfl)
  | binary hlow _ _ _ _ _ _ ihleft ihright =>
    rw [spelling]
    exact ihleft.append (ihright.cons (nest_symbol_of_level hlow 0))

theorem head?_spelling_append (e : Expr) (rest : List Token) :
    (e.spelling ++ rest).head? = e.spelling.head? := by
  obtain ⟨t, ts, h⟩ := List.exists_cons_of_ne_nil e.spelling_ne_nil
  rw [h]
  rfl

theorem WellFormed.head?_ne_parenClose {bound : Nat} {e : Expr} (h : WellFormed bound e) :
    e.spelling.head? ≠ some (.symbol .parenClose) := by
  intro hhead
  obtain ⟨ts, hts⟩ := List.head?_eq_some_iff.1 hhead
  have hclosed := h.isClosed
  rw [IsClosed, hts, nesting_cons] at hclosed
  cases hclosed

end Expr

end DecimalCalculator
