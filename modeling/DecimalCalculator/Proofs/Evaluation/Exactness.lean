import DecimalCalculator.Proofs.Arithmetic.Exact
import DecimalCalculator.Proofs.Evaluation.Pure

/-!
# Exact results

Trees of sums, differences, products, minus signs, groups, absolute values, factorials and powers
whose exponents are not negative. Such a tree has a value in the rational numbers (`HasValue`) and
an exact result, which is a decimal with all its digits (`Exact`). As long as the exact results of
all its parts lie in the range of exponents, the tree is evaluated to its exact result and to
nothing else, under every precision. The evaluation fails where a factorial or a power is not
defined, and where an operation writes out more digits than fit into the memory (`Overreaches`).
-/
namespace DecimalCalculator

open Decimal

namespace Expr

/-! ## Operations -/

def IsExactOp (op : Symbol) : Prop := op = .add ∨ op = .sub ∨ op = .mul

def opValue (op : Symbol) (p q : ℚ) : ℚ :=
  match op with
  | .add => p + q
  | .sub => p - q
  | _ => p * q

/-- A sum, a difference or a product of decimals with all its digits. -/
def opExact (op : Symbol) (a b : Decimal) : Decimal :=
  match op with
  | .add => exactSum a b
  | .sub => exactSum a b.neg
  | _ => exactProduct a b

def opUse (op : Symbol) : Memory.Use :=
  match op with
  | .add | .sub => .sum
  | _ => .product

def opCount (op : Symbol) (a b : Decimal) : Nat :=
  match op with
  | .add | .sub => sumCount a b
  | _ => productCount a b

section

variable {op : Symbol} (hop : IsExactOp op) {a b : Decimal} (ha : a.isFinite) (hb : b.isFinite)
include hop ha hb

theorem isFinite_opExact : (opExact op a b).isFinite := by
  rcases hop with rfl | rfl | rfl
  · exact isFinite_exactSum ha hb
  · exact isFinite_exactSum ha (isFinite_neg hb)
  · exact isFinite_exactProduct ha hb

theorem toRat_opExact : (opExact op a b).toRat = opValue op a.toRat b.toRat := by
  rcases hop with rfl | rfl | rfl
  · exact toRat_exactSum ha hb
  · rw [opExact, toRat_exactSum ha (isFinite_neg hb), toRat_neg, ← sub_eq_add_neg]
    rfl
  · exact toRat_exactProduct ha hb

theorem apply_of_inRange (memory : Memory) (h : (opExact op a b).InRange) (precision : Int) :
    Arithmetic.apply memory precision op.family (.symbol op) a b =
      Arithmetic.demand memory (opUse op) (opCount op a b) >>= fun _ => .ok (opExact op a b) := by
  rcases hop with rfl | rfl | rfl
  · change Failure.ofSignal (a.add memory b) = _
    rw [add_of_inRange ha hb memory h, Arithmetic.ofSignal_demand]
    rfl
  · have hsub : a.sub memory b = a.add memory b.neg := by
      obtain ⟨s, c, e, rfl⟩ := isFinite_iff.1 ha
      obtain ⟨t, d, f, rfl⟩ := isFinite_iff.1 hb
      rfl
    have hcount : sumCount a b.neg = sumCount a b := by
      obtain ⟨s, c, e, rfl⟩ := isFinite_iff.1 ha
      obtain ⟨t, d, f, rfl⟩ := isFinite_iff.1 hb
      rfl
    change Failure.ofSignal (a.sub memory b) = _
    rw [hsub, add_of_inRange ha (isFinite_neg hb) memory h, Arithmetic.ofSignal_demand, hcount]
    rfl
  · change Failure.ofSignal (a.mul memory b) = _
    rw [mul_of_inRange ha hb memory h, Arithmetic.ofSignal_demand]
    rfl

end

/-! ## Values and exact results of trees -/

/-- The value of a tree in the rational numbers. Factorials are those of natural numbers; powers
have a base that is not negative and a natural exponent. -/
inductive HasValue (values : Bindings Decimal) : Expr → ℚ → Prop
  | number {d : Decimal} : d.isFinite → HasValue values (.number d) d.toRat
  | read {name : String} {d : Decimal} : values.get? name = some d → d.isFinite →
    HasValue values (.read name) d.toRat
  | group {e : Expr} {q : ℚ} : HasValue values e q → HasValue values (.group e) q
  | minus {e : Expr} {q : ℚ} : HasValue values e q → HasValue values (.minus e) (-q)
  | abs {name : String} {e : Expr} {q : ℚ} : name = "abs" → HasValue values e q →
    HasValue values (.call name [e]) |q|
  | factorial {e : Expr} {n : Nat} : HasValue values e n →
    HasValue values (.factorial e) n.factorial
  | pow {name : String} {base exponent : Expr} {q : ℚ} {n : Nat} : name = "pow" →
    HasValue values base q → 0 ≤ q → HasValue values exponent n →
    HasValue values (.call name [base, exponent]) (q ^ n)
  | binary {op : Symbol} {left right : Expr} {p q : ℚ} : IsExactOp op → HasValue values left p →
    HasValue values right q → HasValue values (.binary op left right) (opValue op p q)

/-- The decimal with all its digits that the operations of a tree give. -/
inductive Exact (values : Bindings Decimal) : Expr → Decimal → Prop
  | number {d : Decimal} : d.isFinite → Exact values (.number d) d
  | read {name : String} {d : Decimal} : values.get? name = some d → d.isFinite →
    Exact values (.read name) d
  | group {e : Expr} {d : Decimal} : Exact values e d → Exact values (.group e) d
  | minus {e : Expr} {d : Decimal} : Exact values e d → Exact values (.minus e) d.neg
  | abs {name : String} {e : Expr} {d : Decimal} : name = "abs" → Exact values e d →
    Exact values (.call name [e]) d.abs
  | factorial {e : Expr} {d : Decimal} {n : Nat} : Exact values e d → d.toRat = n →
    Exact values (.factorial e) (ofInt n.factorial)
  | pow {name : String} {base exponent : Expr} {a d : Decimal} {n : Nat} : name = "pow" →
    Exact values base a → 0 ≤ a.toRat → Exact values exponent d → d.toRat = n →
    Exact values (.call name [base, exponent]) (exactPower a n)
  | binary {op : Symbol} {left right : Expr} {a b : Decimal} : IsExactOp op →
    Exact values left a → Exact values right b →
    Exact values (.binary op left right) (opExact op a b)

/-- The trees in question. The leaves are finite, and no exponent of a power is negative. -/
inductive IsDivisionFree (values : Bindings Decimal) : Expr → Prop
  | number {d : Decimal} : d.isFinite → IsDivisionFree values (.number d)
  | read {name : String} {d : Decimal} : values.get? name = some d → d.isFinite →
    IsDivisionFree values (.read name)
  | group {e : Expr} : IsDivisionFree values e → IsDivisionFree values (.group e)
  | minus {e : Expr} : IsDivisionFree values e → IsDivisionFree values (.minus e)
  | abs {name : String} {e : Expr} : name = "abs" → IsDivisionFree values e →
    IsDivisionFree values (.call name [e])
  | factorial {e : Expr} : IsDivisionFree values e → IsDivisionFree values (.factorial e)
  | pow {name : String} {base exponent : Expr} : name = "pow" → IsDivisionFree values base →
    IsDivisionFree values exponent → (∀ q, HasValue values exponent q → 0 ≤ q) →
    IsDivisionFree values (.call name [base, exponent])
  | binary {op : Symbol} {left right : Expr} : IsExactOp op → IsDivisionFree values left →
    IsDivisionFree values right → IsDivisionFree values (.binary op left right)

variable {values : Bindings Decimal} {e : Expr}

theorem Exact.isFinite {d : Decimal} (h : e.Exact values d) : d.isFinite := by
  induction h with
  | number hfinite => exact hfinite
  | read _ hfinite => exact hfinite
  | group _ ih => exact ih
  | minus _ ih => exact isFinite_neg ih
  | abs _ _ ih => exact isFinite_abs ih
  | factorial _ _ _ => rfl
  | pow _ _ _ _ _ ih _ => exact isFinite_exactPower ih _
  | binary hop _ _ ihleft ihright => exact isFinite_opExact hop ihleft ihright

/-- The exact result of a tree has the value of the tree. -/
theorem Exact.hasValue {d : Decimal} (h : e.Exact values d) : e.HasValue values d.toRat := by
  induction h with
  | number hfinite => exact .number hfinite
  | read hget hfinite => exact .read hget hfinite
  | group _ ih => exact .group ih
  | minus _ ih =>
    rw [toRat_neg]
    exact .minus ih
  | abs hname _ ih =>
    rw [toRat_abs]
    exact .abs hname ih
  | factorial _ hn ih =>
    rw [toRat_ofInt, Int.cast_natCast]
    exact .factorial (hn ▸ ih)
  | pow hname hbase hnonneg _ hn ihbase ihexponent =>
    rw [toRat_exactPower hbase.isFinite]
    exact .pow hname ihbase hnonneg (hn ▸ ihexponent)
  | binary hop hleft hright ihleft ihright =>
    rw [toRat_opExact hop hleft.isFinite hright.isFinite]
    exact .binary hop ihleft ihright

/-- A tree with a value has an exact result. -/
theorem HasValue.exists_exact {q : ℚ} (h : e.HasValue values q) :
    ∃ d, e.Exact values d ∧ d.toRat = q := by
  induction h with
  | number hfinite => exact ⟨_, .number hfinite, rfl⟩
  | read hget hfinite => exact ⟨_, .read hget hfinite, rfl⟩
  | group _ ih =>
    obtain ⟨d, hd, hvalue⟩ := ih
    exact ⟨d, .group hd, hvalue⟩
  | minus _ ih =>
    obtain ⟨d, hd, rfl⟩ := ih
    exact ⟨d.neg, .minus hd, toRat_neg d⟩
  | abs hname _ ih =>
    obtain ⟨d, hd, rfl⟩ := ih
    exact ⟨d.abs, .abs hname hd, toRat_abs d⟩
  | @factorial _ n _ ih =>
    obtain ⟨d, hd, hn⟩ := ih
    exact ⟨_, .factorial hd hn, (toRat_ofInt _).trans (Int.cast_natCast _)⟩
  | pow hname _ hnonneg _ ihbase ihexponent =>
    obtain ⟨a, ha, rfl⟩ := ihbase
    obtain ⟨d, hd, hn⟩ := ihexponent
    exact ⟨_, .pow hname ha hnonneg hd hn, toRat_exactPower ha.isFinite _⟩
  | binary hop _ _ ihleft ihright =>
    obtain ⟨a, ha, rfl⟩ := ihleft
    obtain ⟨b, hb, rfl⟩ := ihright
    exact ⟨_, .binary hop ha hb, toRat_opExact hop ha.isFinite hb.isFinite⟩

theorem Exact.unique {d d' : Decimal} (h : e.Exact values d) (h' : e.Exact values d') :
    d = d' := by
  induction h generalizing d' with
  | number _ =>
    cases h' with
    | number _ => rfl
  | read hget _ =>
    cases h' with
    | read hget' _ => exact Option.some.inj (hget.symm.trans hget')
  | group _ ih =>
    cases h' with
    | group h' => exact ih h'
  | minus _ ih =>
    cases h' with
    | minus h' => rw [ih h']
  | abs _ _ ih =>
    cases h' with
    | abs _ h' => rw [ih h']
  | factorial _ hn ih =>
    cases h' with
    | factorial h' hn' =>
      rw [ih h', hn'] at hn
      rw [Nat.cast_inj.1 hn]
  | pow _ _ _ _ hn ihbase ihexponent =>
    cases h' with
    | pow _ hbase' _ hexponent' hn' =>
      rw [ihexponent hexponent', hn'] at hn
      rw [ihbase hbase', Nat.cast_inj.1 hn]
  | binary _ _ _ ihleft ihright =>
    cases h' with
    | binary _ hleft' hright' => rw [ihleft hleft', ihright hright']

theorem Exact.hasValue_iff {d : Decimal} (h : e.Exact values d) (q : ℚ) :
    e.HasValue values q ↔ q = d.toRat := by
  constructor
  · intro hq
    obtain ⟨d', hd', rfl⟩ := hq.exists_exact
    rw [h.unique hd']
  · rintro rfl
    exact h.hasValue

/-! ## Parts of trees -/

inductive IsPart : Expr → Expr → Prop
  | self (e : Expr) : IsPart e e
  | child {part child e : Expr} : IsPart part child → child ∈ e.children → IsPart part e

/-- The exact results of the tree and of its parts lie in the range of exponents. -/
def StaysInRange (values : Bindings Decimal) (e : Expr) : Prop :=
  ∀ part d, IsPart part e → part.Exact values d → d.InRange

theorem StaysInRange.child {child : Expr} (h : e.StaysInRange values)
    (hchild : child ∈ e.children) : child.StaysInRange values :=
  fun part d hpart => h part d (.child hpart hchild)

theorem Exact.staysInRange {d : Decimal} (h : e.Exact values d) (hd : d.InRange)
    (hchildren : ∀ child ∈ e.children, child.StaysInRange values) : e.StaysInRange values := by
  intro part d' hpart hd'
  cases hpart with
  | self =>
    rw [← h.unique hd']
    exact hd
  | child hpart hchild => exact hchildren _ hchild part d' hpart hd'

variable {memory : Memory}

/-- The operation of the tree writes out more digits than fit into the memory. Operands of
factorials and exponents are converted to integers first. -/
inductive Overreaches (memory : Memory) (values : Bindings Decimal) : Expr → Prop
  | operand {e : Expr} {d : Decimal} : Exact values e d →
    ¬memory.fits .integer d.integerCount → Overreaches memory values (.factorial e)
  | factorial {e : Expr} {d : Decimal} {n : Nat} : Exact values e d → d.toRat = n →
    ¬memory.fits .factorial (Text.digitCount n.factorial) →
    Overreaches memory values (.factorial e)
  | exponent {name : String} {base exponent : Expr} {d : Decimal} : name = "pow" →
    Exact values exponent d → ¬memory.fits .integer d.integerCount →
    Overreaches memory values (.call name [base, exponent])
  | pow {name : String} {base exponent : Expr} {a d : Decimal} {n : Nat} : name = "pow" →
    Exact values base a → Exact values exponent d → d.toRat = n →
    ¬memory.fits .product (powerCount a n) → Overreaches memory values (.call name [base, exponent])
  | binary {op : Symbol} {left right : Expr} {a b : Decimal} : Exact values left a →
    Exact values right b → ¬memory.fits (opUse op) (opCount op a b) →
    Overreaches memory values (.binary op left right)

theorem Exact.overreaches_factorial_iff {d : Decimal} {n : Nat} (h : e.Exact values d)
    (hn : d.toRat = n) : (Expr.factorial e).Overreaches memory values ↔
      ¬memory.fits .integer d.integerCount ∨
        ¬memory.fits .factorial (Text.digitCount n.factorial) := by
  refine ⟨fun hover => ?_, fun hover => hover.elim (.operand h) (.factorial h hn)⟩
  cases hover with
  | operand hd hfits => exact .inl (h.unique hd ▸ hfits)
  | factorial hd hm hfits =>
    rw [← h.unique hd, hn, Nat.cast_inj] at hm
    exact .inr (hm ▸ hfits)

theorem Exact.overreaches_pow_iff {name : String} {base exponent : Expr} {a d : Decimal} {n : Nat}
    (hname : name = "pow") (hbase : base.Exact values a) (hexponent : exponent.Exact values d)
    (hn : d.toRat = n) : (Expr.call name [base, exponent]).Overreaches memory values ↔
      ¬memory.fits .integer d.integerCount ∨ ¬memory.fits .product (powerCount a n) := by
  refine ⟨fun hover => ?_, fun hover =>
    hover.elim (.exponent hname hexponent) (.pow hname hbase hexponent hn)⟩
  cases hover with
  | exponent _ hd hfits => exact .inl (hexponent.unique hd ▸ hfits)
  | pow _ ha hd hm hfits =>
    rw [← hexponent.unique hd, hn, Nat.cast_inj] at hm
    rw [← hbase.unique ha, ← hm] at hfits
    exact .inr hfits

theorem Exact.overreaches_binary_iff {op : Symbol} {left right : Expr} {a b : Decimal}
    (hleft : left.Exact values a) (hright : right.Exact values b) :
    (Expr.binary op left right).Overreaches memory values ↔
      ¬memory.fits (opUse op) (opCount op a b) := by
  refine ⟨fun hover => ?_, .binary hleft hright⟩
  cases hover with
  | binary ha hb hfits => rwa [hleft.unique ha, hright.unique hb]

def PartOverreaches (memory : Memory) (values : Bindings Decimal) (e : Expr) : Prop :=
  ∃ part, IsPart part e ∧ part.Overreaches memory values

theorem partOverreaches_iff : e.PartOverreaches memory values ↔
    (∃ child ∈ e.children, child.PartOverreaches memory values) ∨ e.Overreaches memory values := by
  constructor
  · rintro ⟨part, hpart, hover⟩
    cases hpart with
    | self => exact .inr hover
    | child hpart hchild => exact .inl ⟨_, hchild, part, hpart, hover⟩
  · rintro (⟨child, hchild, part, hpart, hover⟩ | hover)
    · exact ⟨part, .child hpart hchild, hover⟩
    · exact ⟨e, .self e, hover⟩

theorem not_partOverreaches_of_leaf (hchildren : e.children = [])
    (hown : ¬e.Overreaches memory values) : ¬e.PartOverreaches memory values := by
  rw [partOverreaches_iff, hchildren]
  rintro (⟨_, ⟨⟩, _⟩ | hover)
  exact hown hover

theorem partOverreaches_of_child {child : Expr} (hchildren : e.children = [child]) :
    e.PartOverreaches memory values ↔
      child.PartOverreaches memory values ∨ e.Overreaches memory values := by
  rw [partOverreaches_iff, hchildren]
  simp only [List.mem_singleton, exists_eq_left]

theorem partOverreaches_of_children {left right : Expr} (hchildren : e.children = [left, right]) :
    e.PartOverreaches memory values ↔
      left.PartOverreaches memory values ∨ right.PartOverreaches memory values ∨
        e.Overreaches memory values := by
  rw [partOverreaches_iff, hchildren]
  simp only [List.mem_cons, List.not_mem_nil, or_false, exists_eq_or_imp, exists_eq_left, or_assoc]

/-! ## Computations -/

/-- The computation fails if something does not fit into the memory, and otherwise gives the
result. -/
def Settles {α : Type} (x : Except Failure α) (overreaches : Prop) (a : α) : Prop :=
  (overreaches → x = .error (Fault.signal .outOfMemory)) ∧ (¬overreaches → x = .ok a)

section

variable {α β : Type} {x : Except Failure α} {a : α} {b : β} {p q : Prop}

theorem Settles.congr (h : Settles x p a) (hpq : q ↔ p) : Settles x q a := by
  rwa [Settles, hpq]

theorem Settles.bind {f : α → Except Failure β} (hx : Settles x p a) (hf : Settles (f a) q b) :
    Settles (x >>= f) (p ∨ q) b := by
  by_cases hp : p
  · rw [hx.1 hp]
    exact ⟨fun _ => rfl, fun h => absurd (.inl hp) h⟩
  · rw [hx.2 hp]
    exact hf.congr (or_iff_right hp)

theorem Settles.map (f : α → β) (h : Settles x p a) : Settles (x.map f) p (f a) := by
  refine ⟨fun hp => ?_, fun hp => ?_⟩
  · rw [h.1 hp]
    rfl
  · rw [h.2 hp]
    rfl

theorem Settles.eq_of_ok {a' : α} (h : Settles x p a) (hx : x = .ok a') : a = a' := by
  by_cases hp : p
  · rw [h.1 hp] at hx
    cases hx
  · rw [h.2 hp] at hx
    exact Except.ok.inj hx

theorem settles_ok (h : ¬p) (a : α) : Settles (.ok a) p a :=
  ⟨fun hp => absurd hp h, fun _ => rfl⟩

theorem settles_demand {memory : Memory} {use : Memory.Use} {digits : Nat} (h : Settles x q a) :
    Settles (Arithmetic.demand memory use digits >>= fun _ => x)
      (¬memory.fits use digits ∨ q) a := by
  by_cases hfits : memory.fits use digits
  · rw [Arithmetic.demand_of_fits hfits]
    exact h.congr (or_iff_right (not_not_intro hfits))
  · rw [Arithmetic.demand_of_not_fits hfits]
    exact ⟨fun _ => rfl, fun hnone => absurd (.inl hfits) hnone⟩

theorem settles_demand_ok {memory : Memory} {use : Memory.Use} {digits : Nat} (a : α) :
    Settles (Arithmetic.demand memory use digits >>= fun _ => .ok a) (¬memory.fits use digits) a :=
  (settles_demand (settles_ok not_false a)).congr (or_iff_left not_false).symm

end

section

variable {settings : Settings} {name : String}

theorem compute_abs (hname : name = "abs") : (call name [e]).compute settings values =
    (e.compute settings values).map Decimal.abs := by
  subst hname
  rw [compute]
  simp only [computeAll]
  cases e.compute settings values <;> rfl

theorem compute_pow (hname : name = "pow") (base exponent : Expr) :
    (call name [base, exponent]).compute settings values =
      base.compute settings values >>= fun a => exponent.compute settings values >>= fun d =>
        Arithmetic.power settings.memory settings.precision a d := by
  subst hname
  rw [compute]
  simp only [computeAll]
  cases base.compute settings values with
  | error failure => rfl
  | ok a => cases exponent.compute settings values <;> rfl

end

/-- A tree with an exact result is computed to this result, unless some part does not fit
into the memory. -/
theorem Exact.settles {d : Decimal} (h : e.Exact values d) (hrange : e.StaysInRange values)
    (settings : Settings) :
    Settles (e.compute settings values) (e.PartOverreaches settings.memory values) d := by
  have hresult := hrange e d (.self e) h
  induction h with
  | @number d _ => exact settles_ok (not_partOverreaches_of_leaf rfl (by rintro ⟨⟩)) d
  | @read name d hget _ =>
    rw [compute, hget]
    exact settles_ok (not_partOverreaches_of_leaf rfl (by rintro ⟨⟩)) d
  | group he ih =>
    have hchild := hrange.child List.mem_cons_self
    rw [compute]
    exact (ih hchild (hchild _ _ (.self _) he)).congr
      ((partOverreaches_of_child rfl).trans (or_iff_left (by rintro ⟨⟩)))
  | minus he ih =>
    have hchild := hrange.child List.mem_cons_self
    rw [compute]
    exact ((ih hchild (hchild _ _ (.self _) he)).map Decimal.neg).congr
      ((partOverreaches_of_child rfl).trans (or_iff_left (by rintro ⟨⟩)))
  | @abs name e d hname he ih =>
    have hchild := hrange.child List.mem_cons_self
    rw [compute_abs hname]
    have hown : ¬(Expr.call name [e]).Overreaches settings.memory values := by rintro ⟨⟩
    exact ((ih hchild (hchild _ _ (.self _) he)).map Decimal.abs).congr
      ((partOverreaches_of_child rfl).trans (or_iff_left hown))
  | @factorial e d n he hn ih =>
    have hchild := hrange.child List.mem_cons_self
    rw [compute]
    refine ((ih hchild (hchild _ _ (.self _) he)).bind ?_).congr
      ((partOverreaches_of_child rfl).trans (or_congr_right (he.overreaches_factorial_iff hn)))
    rw [Arithmetic.factorial_of_toRat he.isFinite hn]
    exact settles_demand (settles_demand_ok _)
  | @pow name base exponent a d n hname hbase hnonneg hexponent hn ihbase ihexponent =>
    have hfirst := hrange.child List.mem_cons_self
    have hsecond := hrange.child (List.mem_cons_of_mem _ List.mem_cons_self)
    rw [compute_pow hname]
    refine ((ihbase hfirst (hfirst _ _ (.self _) hbase)).bind
      ((ihexponent hsecond (hsecond _ _ (.self _) hexponent)).bind ?_)).congr
      ((partOverreaches_of_children rfl).trans (or_congr_right (or_congr_right
        (hbase.overreaches_pow_iff hname hexponent hn))))
    rw [Arithmetic.power_of_toRat hbase.isFinite hexponent.isFinite hnonneg hn hresult]
    exact settles_demand (settles_demand_ok _)
  | @binary op left right a b hop hleft hright ihleft ihright =>
    have hfirst := hrange.child List.mem_cons_self
    have hsecond := hrange.child (List.mem_cons_of_mem _ List.mem_cons_self)
    rw [compute]
    refine ((ihleft hfirst (hfirst _ _ (.self _) hleft)).bind
      ((ihright hsecond (hsecond _ _ (.self _) hright)).bind ?_)).congr
      ((partOverreaches_of_children rfl).trans (or_congr_right (or_congr_right
        (hleft.overreaches_binary_iff hright))))
    rw [apply_of_inRange hop hleft.isFinite hright.isFinite settings.memory hresult]
    exact settles_demand_ok _

theorem Exact.of_compute {d v : Decimal} (h : e.Exact values d) (hrange : e.StaysInRange values)
    {settings : Settings} (hv : e.compute settings values = .ok v) : e.Exact values v := by
  rwa [← (h.settles hrange settings).eq_of_ok hv]

/-- What a tree is computed to is its exact result. -/
theorem IsDivisionFree.exact_of_compute (h : e.IsDivisionFree values)
    (hrange : e.StaysInRange values) {settings : Settings} {v : Decimal}
    (hv : e.compute settings values = .ok v) : e.Exact values v := by
  induction h generalizing v with
  | number hfinite => exact (Exact.number hfinite).of_compute hrange hv
  | read hget hfinite => exact (Exact.read hget hfinite).of_compute hrange hv
  | @group e _ ih =>
    rw [compute] at hv
    exact .group (ih (hrange.child List.mem_cons_self) hv)
  | @minus e _ ih =>
    cases ha : e.compute settings values with
    | ok a => exact (ih (hrange.child List.mem_cons_self) ha).minus.of_compute hrange hv
    | error failure =>
      rw [compute, ha] at hv
      cases hv
  | @abs name e hname _ ih =>
    cases ha : e.compute settings values with
    | ok a => exact ((ih (hrange.child List.mem_cons_self) ha).abs hname).of_compute hrange hv
    | error failure =>
      rw [compute_abs hname, ha] at hv
      cases hv
  | factorial _ ih =>
    have hall := hv
    rw [compute] at hv
    obtain ⟨a, ha, hv⟩ := Arithmetic.exists_of_bind_eq_ok hv
    have hexact := ih (hrange.child List.mem_cons_self) ha
    obtain ⟨n, hn⟩ := Arithmetic.toRat_of_factorial hexact.isFinite hv
    exact (hexact.factorial hn).of_compute hrange hall
  | pow hname _ _ hnonneg ihbase ihexponent =>
    have hall := hv
    rw [compute_pow hname] at hv
    obtain ⟨a, ha, hv⟩ := Arithmetic.exists_of_bind_eq_ok hv
    obtain ⟨d, hd, hv⟩ := Arithmetic.exists_of_bind_eq_ok hv
    have hbase := ihbase (hrange.child List.mem_cons_self) ha
    have hexponent := ihexponent (hrange.child (List.mem_cons_of_mem _ List.mem_cons_self)) hd
    obtain ⟨hpositive, n, hn⟩ := Arithmetic.toRat_of_power hbase.isFinite hexponent.isFinite hv
    obtain ⟨m, hm⟩ := Arithmetic.exists_natCast_of_nonneg (hnonneg _ hexponent.hasValue) hn
    exact (Exact.pow hname hbase hpositive hexponent hm).of_compute hrange hall
  | binary hop _ _ ihleft ihright =>
    have hall := hv
    rw [compute] at hv
    obtain ⟨a, ha, hv⟩ := Arithmetic.exists_of_bind_eq_ok hv
    obtain ⟨b, hb, -⟩ := Arithmetic.exists_of_bind_eq_ok hv
    have hleft := ihleft (hrange.child List.mem_cons_self) ha
    have hright := ihright (hrange.child (List.mem_cons_of_mem _ List.mem_cons_self)) hb
    exact (Exact.binary hop hleft hright).of_compute hrange hall

theorem apply_precision {op : Symbol} (hop : IsExactOp op) (memory : Memory)
    (precision precision' : Int) (a b : Decimal) :
    Arithmetic.apply memory precision op.family (.symbol op) a b =
      Arithmetic.apply memory precision' op.family (.symbol op) a b := by
  rcases hop with rfl | rfl | rfl <;> rfl

theorem bind_congr_of_ok {α β : Type} {x : Except Failure α} {f g : α → Except Failure β}
    (h : ∀ a, x = .ok a → f a = g a) : x >>= f = x >>= g := by
  cases x with
  | ok a => exact h a rfl
  | error failure => rfl

/-- The precision has no influence. -/
theorem IsDivisionFree.compute_eq (h : e.IsDivisionFree values) (hrange : e.StaysInRange values)
    {settings settings' : Settings} (hmemory : settings.memory = settings'.memory) :
    e.compute settings values = e.compute settings' values := by
  induction h with
  | number _ => rfl
  | read _ _ => rfl
  | group _ ih =>
    rw [compute, compute]
    exact ih (hrange.child List.mem_cons_self)
  | minus _ ih => rw [compute, compute, ih (hrange.child List.mem_cons_self)]
  | abs hname _ ih =>
    rw [compute_abs hname, compute_abs hname, ih (hrange.child List.mem_cons_self)]
  | factorial _ ih => rw [compute, compute, ih (hrange.child List.mem_cons_self), hmemory]
  | @pow name base exponent hname _ hexponent hnonneg ihbase ihexponent =>
    have hsecond := hrange.child (List.mem_cons_of_mem _ List.mem_cons_self)
    rw [compute_pow hname, compute_pow hname, ihbase (hrange.child List.mem_cons_self),
      ihexponent hsecond]
    refine congrArg (_ >>= ·) (funext fun a => bind_congr_of_ok fun d hd => ?_)
    have hexact := hexponent.exact_of_compute hsecond hd
    have hpositive := hnonneg _ hexact.hasValue
    rw [Arithmetic.power_of_nonneg hexact.isFinite hpositive,
      Arithmetic.power_of_nonneg hexact.isFinite hpositive, hmemory]
  | binary hop _ _ ihleft ihright =>
    rw [compute, compute, ihleft (hrange.child List.mem_cons_self),
      ihright (hrange.child (List.mem_cons_of_mem _ List.mem_cons_self))]
    simp only [hmemory, apply_precision hop settings'.memory settings.precision settings'.precision]

theorem IsDivisionFree.isPure (h : e.IsDivisionFree values) : e.IsPure := by
  induction h with
  | number _ => exact .number _
  | read _ _ => exact .read _
  | group _ ih => exact .group ih
  | minus _ ih => exact .minus ih
  | abs hname _ ih =>
    exact .call (.inl hname) (List.forall_mem_cons.2 ⟨ih, List.forall_mem_nil _⟩)
  | factorial _ ih => exact .factorial ih
  | pow hname _ _ _ ihbase ihexponent =>
    exact .call (.inr hname) (List.forall_mem_cons.2 ⟨ihbase,
      List.forall_mem_cons.2 ⟨ihexponent, List.forall_mem_nil _⟩⟩)
  | binary _ _ _ ihleft ihright => exact .binary ihleft ihright

end Expr

/-- Without division nothing is rounded. When the evaluation of such a tree returns, it returns the
exact result, and its value is that of the tree. It returns whenever the tree has a value, unless
some part of the tree does not fit into the memory; then this is the failure. The precision has no
influence on what it comes to. -/
theorem evaluation_is_exact {values : Bindings Decimal} {e : Expr} {bodyBound : Nat}
    (hwf : e.WellFormed bodyBound) (hfree : e.IsDivisionFree values)
    (hrange : e.StaysInRange values) (functions : Bindings (List Token)) :
    (∀ settings : Settings, e.depth < settings.maxDepth →
      (∀ v, (evaluate settings e.spelling values functions).result = .ok v →
        e.Exact values v ∧ ∀ q, e.HasValue values q ↔ q = v.toRat) ∧
      ∀ q, e.HasValue values q →
        (¬e.PartOverreaches settings.memory values →
          ∃ v, (evaluate settings e.spelling values functions).result = .ok v) ∧
        (e.PartOverreaches settings.memory values →
          (evaluate settings e.spelling values functions).result =
            .error (Fault.signal .outOfMemory))) ∧
    ∀ settings settings' : Settings, settings.memory = settings'.memory →
      e.depth < settings.maxDepth → e.depth < settings'.maxDepth →
      (evaluate settings e.spelling values functions).result =
        (evaluate settings' e.spelling values functions).result := by
  refine ⟨fun settings hdepth => ?_, fun settings settings' hmemory hdepth hdepth' => ?_⟩
  · rw [evaluate_of_isPure hfree.isPure hwf hdepth values functions]
    refine ⟨fun v hv => ?_, fun q hq => ?_⟩
    · have hexact := hfree.exact_of_compute hrange hv
      exact ⟨hexact, hexact.hasValue_iff⟩
    · obtain ⟨d, hd, -⟩ := hq.exists_exact
      have hsettles := hd.settles hrange settings
      exact ⟨fun hfits => ⟨d, hsettles.2 hfits⟩, hsettles.1⟩
  · rw [evaluate_of_isPure hfree.isPure hwf hdepth values functions,
      evaluate_of_isPure hfree.isPure hwf hdepth' values functions]
    exact hfree.compute_eq hrange hmemory

def scaledDifference : Expr :=
  .binary .mul (.group (.binary .sub (.read "x") (.number (.finite false 75 (-2)))))
    (.factorial (.number (.finite false 3 0)))

def oneVariable : Bindings Decimal := Bindings.empty.insert "x" (.finite false 25 (-1))

theorem scaledDifference_isDivisionFree : scaledDifference.IsDivisionFree oneVariable :=
  .binary (.inr (.inr rfl))
    (.group (.binary (.inr (.inl rfl)) (.read rfl rfl) (.number rfl))) (.factorial (.number rfl))

theorem scaledDifference_staysInRange : scaledDifference.StaysInRange oneVariable := by
  have hx : (Expr.read "x").Exact oneVariable (.finite false 25 (-1)) := .read rfl rfl
  have hy : (Expr.number (.finite false 75 (-2))).Exact oneVariable (.finite false 75 (-2)) :=
    .number rfl
  have hthree : (Expr.number (.finite false 3 0)).Exact oneVariable (.finite false 3 0) :=
    .number rfl
  have hdifference := Expr.Exact.binary (.inr (.inl rfl) : Expr.IsExactOp .sub) hx hy
  have hnatural : Decimal.toRat (.finite false 3 0) = (3 : Nat) := by simp [toRat, signed]
  have hfactorial := hthree.factorial hnatural
  have hproduct := Expr.Exact.binary (.inr (.inr rfl) : Expr.IsExactOp .mul) hdifference.group
    hfactorial
  have hleft := hdifference.staysInRange (by decide) (List.forall_mem_cons.2
    ⟨hx.staysInRange (by decide) (List.forall_mem_nil _), List.forall_mem_singleton.2
      (hy.staysInRange (by decide) (List.forall_mem_nil _))⟩)
  have hright := hfactorial.staysInRange (by decide) (List.forall_mem_singleton.2
    (hthree.staysInRange (by decide) (List.forall_mem_nil _)))
  exact hproduct.staysInRange (by decide) (List.forall_mem_cons.2
    ⟨hdifference.group.staysInRange (by decide) (List.forall_mem_singleton.2 hleft),
      List.forall_mem_singleton.2 hright⟩)

/-- Under every precision `(x - 0.75) * 3!` comes to `10.50`, if one group is allowed. -/
theorem scaledDifference_comes_to :
    (∀ settings : Settings, settings.memory = .default → 1 < settings.maxDepth →
      (evaluate settings scaledDifference.spelling oneVariable .empty).result =
        .ok (.finite false 1050 (-2))) ∧
    scaledDifference.HasValue oneVariable (Decimal.toRat (.finite false 1050 (-2))) := by
  have hwf : scaledDifference.WellFormed 0 :=
    .binary (by decide) (by decide) (.group (.binary (by decide) (by decide) (.read "x") (by decide)
      not_false (.number _) (by decide))) (by decide) not_false
      (.factorial (.number _) (by decide) not_false) (by decide)
  have hreturns : (evaluate Settings.default scaledDifference.spelling oneVariable .empty).result =
      .ok (.finite false 1050 (-2)) := by
    decide +kernel
  have hdepth : scaledDifference.depth < Settings.default.maxDepth := by decide
  obtain ⟨hexact, hsame⟩ := evaluation_is_exact hwf
    scaledDifference_isDivisionFree scaledDifference_staysInRange .empty
  refine ⟨fun settings hmemory hsettings => ?_, ?_⟩
  · rw [hsame settings Settings.default hmemory hsettings hdepth]
    exact hreturns
  · exact ((hexact Settings.default hdepth).1 _ hreturns).1.hasValue

def longExponent : Expr :=
  .call "pow" [.number .one, .number (.finite false 1 100000000000000000)]

/-- The power has the value one, but its exponent does not fit into the memory. -/
theorem longExponent_does_not_return :
    longExponent.WellFormed Settings.default.maxDepth ∧ longExponent.IsDivisionFree .empty ∧
      longExponent.StaysInRange .empty ∧ longExponent.depth < Settings.default.maxDepth ∧
      longExponent.HasValue .empty 1 ∧
      (evaluate Settings.default longExponent.spelling .empty .empty).result =
        .error (Fault.signal .outOfMemory) := by
  have hpositive (exponent : Int) : 0 ≤ Decimal.toRat (.finite false 1 exponent) :=
    toRat_nonneg_iff.2 (.inl rfl)
  obtain ⟨n, hn⟩ := exists_natCast_of_exponent_nonneg (e := 100000000000000000) (by decide) 1
  have hone : exactPower .one n = .finite false 1 0 := by simp [exactPower, Decimal.one]
  have hpow : longExponent.Exact .empty (.finite false 1 0) :=
    hone ▸ .pow rfl (.number rfl) (hpositive 0) (.number rfl) hn
  have hleaf (d : Decimal) (hfinite : d.isFinite) (hd : d.InRange) :
      (Expr.number d).StaysInRange .empty :=
    (Expr.Exact.number hfinite).staysInRange hd (List.forall_mem_nil _)
  have hvalue : Decimal.toRat (.finite false 1 0) = 1 := by simp [toRat, signed]
  refine ⟨.call "pow" ?_, .pow rfl (.number rfl) (.number rfl) ?_, hpow.staysInRange (by decide) ?_,
    by decide, hvalue ▸ hpow.hasValue, by decide +kernel⟩
  · exact List.forall_mem_cons.2 ⟨.number _, List.forall_mem_singleton.2 (.number _)⟩
  · intro q hq
    cases hq with
    | number _ => exact hpositive _
  · exact List.forall_mem_cons.2 ⟨hleaf _ rfl (by decide), List.forall_mem_singleton.2
      (hleaf _ rfl (by decide))⟩

end DecimalCalculator
