import DecimalCalculator.Proofs.Arithmetic.Totals
import DecimalCalculator.Proofs.Evaluation.Exactness
import Mathlib.Data.List.Induction
import Mathlib.Data.List.Infix

/-!
# The order of terms

Terms that are joined by signs of one level are brought together from the right, since such signs
group to the right. Of sums and products this cannot be seen: the sum of the terms and the product
of the factors are the same decimals in every order, and also when they are brought together from
the left.

What can be seen is where the memory does not suffice. Which sums or products are formed on the way
depends on the order (`ReachesBack`, `ReachesOn`): two terms may stand far apart although others
cancel, and a product may be long although a zero is among the factors.
-/
namespace DecimalCalculator

open Decimal

/-- Numbers with a sign between any two of them. -/
def Token.joined (op : Symbol) (ts : List Decimal) : List Token :=
  (ts.map Token.number).intersperse (.symbol op)

namespace Arithmetic

/-- Terms brought together by an operation that may fail, beginning with the first two. -/
def foldLeft (f : Decimal → Decimal → Except Failure Decimal) :
    List Decimal → Except Failure Decimal
  | [] => .ok zero
  | a :: rest => rest.foldlM f a

theorem foldLeft_concat (f : Decimal → Decimal → Except Failure Decimal) {ts : List Decimal}
    (hne : ts ≠ []) (a : Decimal) :
    foldLeft f (ts ++ [a]) = foldLeft f ts >>= fun front => f front a := by
  obtain ⟨b, rest, rfl⟩ := List.exists_cons_of_ne_nil hne
  simp [foldLeft, List.foldlM_append]

end Arithmetic

namespace Expr

def chained (op : Symbol) : List Decimal → Expr
  | [] => .number zero
  | [a] => .number a
  | a :: b :: rest => .binary op (.number a) (chained op (b :: rest))

/-- Bringing some term together with what comes of the terms behind it does not fit into the
memory. -/
def ReachesBack (memory : Memory) (op : Symbol) (ts : List Decimal) : Prop :=
  ∃ a rest, rest ≠ [] ∧ a :: rest <:+ ts ∧
    ¬memory.fits (opUse op) (opCount op a (total (opExact op) rest))

/-- Bringing some term together with what comes of the terms before it does not fit into the
memory. -/
def ReachesOn (memory : Memory) (op : Symbol) (ts : List Decimal) : Prop :=
  ∃ front a, front ≠ [] ∧ front ++ [a] <+: ts ∧
    ¬memory.fits (opUse op) (opCount op (total (opExact op) front) a)

section

variable {memory : Memory} {op : Symbol} {ts : List Decimal}

theorem chained_cons (op : Symbol) (a : Decimal) (hne : ts ≠ []) :
    chained op (a :: ts) = .binary op (.number a) (chained op ts) := by
  obtain ⟨b, rest, rfl⟩ := List.exists_cons_of_ne_nil hne
  rfl

theorem spelling_chained (op : Symbol) (hne : ts ≠ []) :
    (chained op ts).spelling = Token.joined op ts := by
  induction ts with
  | nil => exact absurd rfl hne
  | cons a rest ih =>
    cases rest with
    | nil => rfl
    | cons b rest => rw [chained, spelling, ih (List.cons_ne_nil b rest)]; rfl

theorem isPure_chained (op : Symbol) (ts : List Decimal) : (chained op ts).IsPure := by
  fun_induction chained op ts with
  | case1 => exact .number zero
  | case2 a => exact .number a
  | case3 a b rest ih => exact .binary (.number a) ih

theorem depth_chained (op : Symbol) (ts : List Decimal) : (chained op ts).depth = 0 := by
  fun_induction chained op ts with
  | case1 => rfl
  | case2 a => rfl
  | case3 a b rest ih => rw [depth, depth, ih, Nat.max_self]

theorem le_level_chained (hop : op.level ≤ 6) (ts : List Decimal) :
    op.level ≤ (chained op ts).level := by
  fun_cases chained op ts with
  | case1 => exact hop.trans (by decide : 6 ≤ 9)
  | case2 a => exact hop.trans (by decide : 6 ≤ 9)
  | case3 a b rest => exact Nat.le_refl _

theorem wellFormed_chained (bound : Nat) (hlow : 1 ≤ op.level) (hhigh : op.level ≤ 6)
    (ts : List Decimal) : (chained op ts).WellFormed bound := by
  fun_induction chained op ts with
  | case1 => exact .number zero
  | case2 a => exact .number a
  | case3 a b rest ih =>
    exact .binary hlow hhigh (.number a) (Nat.lt_of_le_of_lt hhigh (by decide : 6 < 9)) not_false ih
      (le_level_chained hhigh (b :: rest))

theorem reachesBack_cons (a : Decimal) (hne : ts ≠ []) :
    ReachesBack memory op (a :: ts) ↔
      ReachesBack memory op ts ∨
        ¬memory.fits (opUse op) (opCount op a (total (opExact op) ts)) := by
  constructor
  · rintro ⟨b, rest, hrest, hsuffix, hfits⟩
    rcases List.suffix_cons_iff.1 hsuffix with heq | hsuffix
    · obtain ⟨rfl, rfl⟩ := List.cons.inj heq
      exact .inr hfits
    · exact .inl ⟨b, rest, hrest, hsuffix, hfits⟩
  · rintro (⟨b, rest, hrest, hsuffix, hfits⟩ | hfits)
    · exact ⟨b, rest, hrest, hsuffix.trans (List.suffix_cons a ts), hfits⟩
    · exact ⟨a, ts, hne, List.suffix_refl _, hfits⟩

theorem reachesOn_concat (a : Decimal) (hne : ts ≠ []) :
    ReachesOn memory op (ts ++ [a]) ↔
      ReachesOn memory op ts ∨
        ¬memory.fits (opUse op) (opCount op (total (opExact op) ts) a) := by
  constructor
  · rintro ⟨front, b, hfront, hprefix, hfits⟩
    rcases List.prefix_concat_iff.1 hprefix with heq | hprefix
    · obtain ⟨rfl, hlast⟩ := List.append_inj' heq rfl
      obtain rfl := List.singleton_inj.1 hlast
      exact .inr hfits
    · exact .inl ⟨front, b, hfront, hprefix, hfits⟩
  · rintro (⟨front, b, hfront, hprefix, hfits⟩ | hfits)
    · exact ⟨front, b, hfront, hprefix.trans (List.prefix_append ts [a]), hfits⟩
    · exact ⟨ts, a, hne, List.prefix_refl _, hfits⟩

theorem not_reachesBack_of_tails
    (h : ∀ part ∈ ts.tails, ∀ a ∈ part.head?,
      memory.fits (opUse op) (opCount op a (total (opExact op) part.tail))) :
    ¬ReachesBack memory op ts := by
  rintro ⟨a, rest, -, hsuffix, hfits⟩
  exact hfits (h (a :: rest) ((List.mem_tails _ _).2 hsuffix) a rfl)

theorem not_reachesOn_of_inits
    (h : ∀ part ∈ ts.inits, ∀ a ∈ part.getLast?,
      memory.fits (opUse op) (opCount op (total (opExact op) part.dropLast) a)) :
    ¬ReachesOn memory op ts := by
  rintro ⟨front, a, -, hprefix, hfits⟩
  have hpart := h (front ++ [a]) ((List.mem_inits _ _).2 hprefix) a (List.getLast?_concat ..)
  rw [List.dropLast_concat] at hpart
  exact hfits hpart

theorem not_reachesBack_singleton (a : Decimal) : ¬ReachesBack memory op [a] := by
  rintro ⟨b, rest, hrest, hsuffix, -⟩
  have hlength := hsuffix.length_le
  exact hrest (List.eq_nil_of_length_eq_zero (by simpa using hlength))

theorem not_reachesOn_singleton (a : Decimal) : ¬ReachesOn memory op [a] := by
  rintro ⟨front, b, hfront, hprefix, -⟩
  have hlength := hprefix.length_le
  exact hfront (List.eq_nil_of_length_eq_zero (by simpa using hlength))

end

/-! ## Folding -/

section

variable {op : Symbol} (hop : IsExactOp op) {ts : List Decimal} (hne : ts ≠ [])
  (hfinite : ∀ t ∈ ts, t.isFinite)
include hop hne hfinite

theorem isFinite_total : (total (opExact op) ts).isFinite := by
  induction ts with
  | nil => exact absurd rfl hne
  | cons a rest ih =>
    obtain ⟨ha, hrest⟩ := List.forall_mem_cons.1 hfinite
    by_cases hlast : rest = []
    · rw [hlast]
      exact ha
    · rw [total_cons _ a hlast]
      exact isFinite_opExact hop ha (ih hlast hrest)

/-- Joined numbers come to the total from the right, by induction on the terms. -/
theorem settles_chained (hrange : ∀ part, part <:+ ts → (total (opExact op) part).InRange)
    (settings : Settings) (values : Bindings Decimal) :
    Settles ((chained op ts).compute settings values) (ReachesBack settings.memory op ts)
      (total (opExact op) ts) := by
  induction ts with
  | nil => exact absurd rfl hne
  | cons a rest ih =>
    obtain ⟨ha, hrest⟩ := List.forall_mem_cons.1 hfinite
    by_cases hlast : rest = []
    · rw [hlast]
      exact settles_ok (not_reachesBack_singleton a) a
    · have hbehind := ih hlast hrest fun part hpart =>
        hrange part (hpart.trans (List.suffix_cons a rest))
      have hwhole := hrange (a :: rest) (List.suffix_refl _)
      rw [total_cons _ a hlast] at hwhole ⊢
      rw [chained_cons op a hlast]
      refine (hbehind.bind ?_).congr (reachesBack_cons a hlast)
      rw [apply_of_inRange hop ha (isFinite_total hop hlast hrest) settings.memory hwhole]
      exact settles_demand_ok _

theorem settles_foldLeft {P : List Decimal → Decimal → Prop} (hfree : OrderFree (opExact op) P)
    (hrange : ∀ part, part <+: ts → (total (opExact op) part).InRange) (memory : Memory)
    (precision : Int) :
    Settles (Arithmetic.foldLeft (Arithmetic.apply memory precision op.family (.symbol op)) ts)
      (ReachesOn memory op ts) (total (opExact op) ts) := by
  induction ts using List.reverseRecOn with
  | nil => exact absurd rfl hne
  | append_singleton front a ih =>
    obtain ⟨hfront, ha⟩ := List.forall_mem_append.1 hfinite
    by_cases hfirst : front = []
    · rw [hfirst]
      exact settles_ok (not_reachesOn_singleton a) a
    · have hbefore := ih hfirst hfront fun part hpart =>
        hrange part (hpart.trans (List.prefix_append front [a]))
      have hwhole := hrange (front ++ [a]) (List.prefix_refl _)
      rw [hfree.total_concat hfirst hfinite] at hwhole ⊢
      rw [Arithmetic.foldLeft_concat _ hfirst]
      refine (hbefore.bind ?_).congr (reachesOn_concat a hfirst)
      rw [apply_of_inRange hop (isFinite_total hop hfirst hfront)
        (ha a (List.mem_singleton_self a)) memory hwhole]
      exact settles_demand_ok _

/-- What the tokens of joined numbers are evaluated to. -/
theorem settles_evaluate_joined
    (hrange : ∀ part, part <:+ ts → (total (opExact op) part).InRange) (settings : Settings)
    (values : Bindings Decimal) (functions : Bindings (List Token)) :
    Settles (evaluate settings (Token.joined op ts) values functions).result
      (ReachesBack settings.memory op ts) (total (opExact op) ts) := by
  have hlevel : 1 ≤ op.level ∧ op.level ≤ 6 := by
    rcases hop with rfl | rfl | rfl <;> decide
  have hdepth : (chained op ts).depth < settings.maxDepth := by
    rw [depth_chained]
    exact settings.maxDepth_pos
  rw [← spelling_chained op hne, evaluate_of_isPure (isPure_chained op ts)
    (wellFormed_chained 0 hlevel.1 hlevel.2 ts) hdepth values functions]
  exact settles_chained hop hne hfinite hrange settings values

/-- Terms in two orders, brought together by an operation that does not depend on the order. -/
theorem settles_in_any_order {P : List Decimal → Decimal → Prop} (hfree : OrderFree (opExact op) P)
    {us : List Decimal} (hperm : us.Perm ts)
    (hrange : ∀ part, part <:+ ts ∨ part <:+ us ∨ part <+: ts →
      (total (opExact op) part).InRange) (settings : Settings) (values : Bindings Decimal)
    (functions : Bindings (List Token)) :
    P ts (total (opExact op) ts) ∧
      Settles (evaluate settings (Token.joined op ts) values functions).result
        (ReachesBack settings.memory op ts) (total (opExact op) ts) ∧
      Settles (evaluate settings (Token.joined op us) values functions).result
        (ReachesBack settings.memory op us) (total (opExact op) ts) ∧
      Settles (Arithmetic.foldLeft
          (Arithmetic.apply settings.memory settings.precision op.family (.symbol op)) ts)
        (ReachesOn settings.memory op ts) (total (opExact op) ts) := by
  have hne' : us ≠ [] := fun hnil => hne (hnil ▸ hperm).nil_eq.symm
  have hfinite' : ∀ u ∈ us, u.isFinite := fun u hu => hfinite u (hperm.mem_iff.1 hu)
  refine ⟨hfree.total hne hfinite, ?_, ?_, ?_⟩
  · exact settles_evaluate_joined hop hne hfinite (fun part h => hrange part (.inl h)) _ _ _
  · rw [← hfree.total_perm hne hfinite hperm]
    exact settles_evaluate_joined hop hne' hfinite'
      (fun part h => hrange part (.inr (.inl h))) _ _ _
  · exact settles_foldLeft hop hne hfinite hfree
      (fun part h => hrange part (.inr (.inr h))) settings.memory settings.precision

end

end Expr

open DecimalCalculator.Expr

/-- The terms of a sum and the factors of a product can be put into any order and brought together
from either side. The result is the same decimal, with the exponent and the sign of the sum or of
the product, unless something on the way does not fit into the memory; then this is the failure. -/
theorem order_of_terms_is_immaterial {ts us : List Decimal} (hne : ts ≠ [])
    (hfinite : ∀ t ∈ ts, t.isFinite) (hperm : us.Perm ts) (settings : Settings)
    (values : Bindings Decimal) (functions : Bindings (List Token)) :
    ((∀ part, part <:+ ts ∨ part <:+ us ∨ part <+: ts → (total exactSum part).InRange) →
      IsSum ts (total exactSum ts) ∧
        Settles (evaluate settings (Token.joined .add ts) values functions).result
          (ReachesBack settings.memory .add ts) (total exactSum ts) ∧
        Settles (evaluate settings (Token.joined .add us) values functions).result
          (ReachesBack settings.memory .add us) (total exactSum ts) ∧
        Settles (Arithmetic.foldLeft (Arithmetic.add settings.memory) ts)
          (ReachesOn settings.memory .add ts) (total exactSum ts)) ∧
      ((∀ part, part <:+ ts ∨ part <:+ us ∨ part <+: ts → (total exactProduct part).InRange) →
        IsProduct ts (total exactProduct ts) ∧
          Settles (evaluate settings (Token.joined .mul ts) values functions).result
            (ReachesBack settings.memory .mul ts) (total exactProduct ts) ∧
          Settles (evaluate settings (Token.joined .mul us) values functions).result
            (ReachesBack settings.memory .mul us) (total exactProduct ts) ∧
          Settles (Arithmetic.foldLeft (Arithmetic.mul settings.memory) ts)
            (ReachesOn settings.memory .mul ts) (total exactProduct ts)) := by
  constructor
  · intro hrange
    exact settles_in_any_order (.inl rfl) hne hfinite orderFree_exactSum hperm hrange settings
      values functions
  · intro hrange
    exact settles_in_any_order (.inr (.inr rfl)) hne hfinite orderFree_exactProduct hperm hrange
      settings values functions

/-- The parts of two lists are finitely many. -/
theorem forall_parts (ts us : List Decimal) {P : List Decimal → Prop}
    (h : ∀ part ∈ ts.tails ++ us.tails ++ ts.inits, P part) (part : List Decimal)
    (hpart : part <:+ ts ∨ part <:+ us ∨ part <+: ts) : P part := by
  refine h part ?_
  rw [List.mem_append, List.mem_append, List.mem_tails, List.mem_tails, List.mem_inits, or_assoc]
  exact hpart

/-- A zero with a minus sign, `1.50` and `-1.5`, and then the same terms in another order. -/
theorem cancellingTerms_in_any_order :
    let ts := [finite true 0 (-2), finite false 150 (-2), finite true 15 (-1)]
    let us := [finite true 15 (-1), finite true 0 (-2), finite false 150 (-2)]
    us.Perm ts ∧ (∀ part, part <:+ ts ∨ part <:+ us ∨ part <+: ts →
        (total exactSum part).InRange ∧ (total exactProduct part).InRange) ∧
      (evaluate .default (Token.joined .add ts) .empty .empty).result =
        .ok (finite false 0 (-2)) ∧
      (evaluate .default (Token.joined .add us) .empty .empty).result =
        .ok (finite false 0 (-2)) ∧
      Arithmetic.foldLeft (Arithmetic.add .default) ts = .ok (finite false 0 (-2)) ∧
      (evaluate .default (Token.joined .mul us) .empty .empty).result =
        .ok (finite false 0 (-5)) := by
  intro ts us
  have hne : ts ≠ [] := List.cons_ne_nil _ _
  have hfinite : ∀ t ∈ ts, t.isFinite := by decide
  have hperm : us.Perm ts := by decide
  have hparts := forall_parts ts us
    (P := fun part => (total exactSum part).InRange ∧ (total exactProduct part).InRange) (by decide)
  have hback : ¬ReachesBack .default .add ts := not_reachesBack_of_tails (by decide)
  have hback' : ¬ReachesBack .default .add us := not_reachesBack_of_tails (by decide)
  have hon : ¬ReachesOn .default .add ts := not_reachesOn_of_inits (by decide)
  have hfactors : ¬ReachesBack .default .mul us := not_reachesBack_of_tails (by decide)
  obtain ⟨hadd, hmul⟩ := order_of_terms_is_immaterial hne hfinite hperm .default .empty .empty
  obtain ⟨-, hsum, hsum', hleft⟩ := hadd fun part h => (hparts part h).1
  obtain ⟨-, -, hproduct, -⟩ := hmul fun part h => (hparts part h).2
  exact ⟨hperm, hparts, hsum.2 hback, hsum'.2 hback', hleft.2 hon, hproduct.2 hfactors⟩

/-- One followed by `e` zeros, the same with a minus sign, and one. -/
def farTerms (e : Int) : List Decimal := [finite false 1 e, finite true 1 e, one]

theorem sum_abs_farTerms (e : Int) :
    ((farTerms e).map fun t => |t.toRat|).sum = 10 ^ e + (10 ^ e + 1) := by
  have hpos := ten_zpow_pos e
  simp [farTerms, one, toRat, signed, abs_of_pos hpos]

theorem sum_abs_farTerms_lt {e m : Int} (he : 0 ≤ e) (hm : e + 1 ≤ m) :
    ((farTerms e).map fun t => |t.toRat|).sum < 10 ^ m := by
  have hone : (1 : ℚ) ≤ 10 ^ e := one_le_zpow₀ (by norm_num) he
  have hle : (10 : ℚ) ^ (e + 1) ≤ 10 ^ m := zpow_le_zpow_right₀ (by norm_num) hm
  rw [zpow_add_one₀ ten_ne_zero] at hle
  rw [sum_abs_farTerms]
  linarith

/-- Beginning with the two large numbers the sum is one. Beginning with one and a large number it
does not fit into the memory. -/
theorem farTerms_depend_on_order :
    let ts := farTerms 100000000000000000
    let us := one :: [finite false 1 100000000000000000, finite true 1 100000000000000000]
    us.Perm ts ∧
      (∀ part, part <:+ ts ∨ part <:+ us ∨ part <+: ts → (total exactSum part).InRange) ∧
      (evaluate .default (Token.joined .add ts) .empty .empty).result =
        .error (Fault.signal .outOfMemory) ∧
      (evaluate .default (Token.joined .add us) .empty .empty).result = .ok one ∧
      Arithmetic.foldLeft (Arithmetic.add .default) ts = .ok one := by
  intro ts us
  have hperm : us.Perm ts := by decide
  have hrange {part : List Decimal} (hpart : part.Subperm ts) : (total exactSum part).InRange :=
    inRange_total_of_subperm (by decide) (by decide)
      (sum_abs_farTerms_lt (by decide) (by decide)) hpart
  refine ⟨hperm, ?_, by decide +kernel, by decide +kernel, by decide +kernel⟩
  rintro part (hpart | hpart | hpart)
  · exact hrange hpart.sublist.subperm
  · exact hrange (hpart.sublist.subperm.trans hperm.subperm)
  · exact hrange hpart.sublist.subperm

end DecimalCalculator
