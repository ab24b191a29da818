/-!
# Bindings

A finite map from names to values, as a list of pairs with the newest binding first and at most one
binding of a name. Binding a name anew replaces its value. The view of a map is `get?`; the order of
the pairs is of no account, and a listing for people sorts the names.
-/
namespace DecimalCalculator

/-- A finite map from names to values. -/
structure Bindings (α : Type) where
  entries : List (String × α)
  deriving DecidableEq, Repr

namespace Bindings

variable {α : Type}

def empty : Bindings α := ⟨[]⟩

def get? (b : Bindings α) (name : String) : Option α :=
  b.entries.lookup name

def contains (b : Bindings α) (name : String) : Bool :=
  (b.get? name).isSome

def erase (b : Bindings α) (name : String) : Bindings α :=
  ⟨b.entries.filter (·.1 != name)⟩

def insert (b : Bindings α) (name : String) (value : α) : Bindings α :=
  ⟨(name, value) :: (b.erase name).entries⟩

/-- The map that binds the names of a list; a later pair replaces an earlier one of its name. -/
def ofList (pairs : List (String × α)) : Bindings α :=
  pairs.foldl (fun b pair => b.insert pair.1 pair.2) empty

def size (b : Bindings α) : Nat := b.entries.length

def sorted (b : Bindings α) : List (String × α) :=
  b.entries.mergeSort fun x y => x.1 ≤ y.1

theorem lookup_filter_ne (entries : List (String × α)) (name other : String) :
    (entries.filter (·.1 != other)).lookup name =
      if name = other then none else entries.lookup name := by
  induction entries with
  | nil => simp
  | cons pair rest ih =>
    obtain ⟨key, value⟩ := pair
    rcases Decidable.em (key = other) with rfl | hkey
    · rcases Decidable.em (name = key) with rfl | hname
      · simpa using ih
      · have hbeq : (name == key) = false := beq_eq_false_iff_ne.2 hname
        simpa [hname, List.lookup_cons, hbeq] using ih
    · rcases Decidable.em (name = key) with rfl | hname
      · simp [hkey]
      · have hbeq : (name == key) = false := beq_eq_false_iff_ne.2 hname
        simpa [hkey, List.lookup_cons, hbeq] using ih

@[simp] theorem get?_empty (name : String) : (empty : Bindings α).get? name = none := rfl

theorem get?_erase (b : Bindings α) (name other : String) :
    (b.erase other).get? name = if name = other then none else b.get? name :=
  lookup_filter_ne b.entries name other

theorem get?_insert (b : Bindings α) (name other : String) (value : α) :
    (b.insert other value).get? name = if name = other then some value else b.get? name := by
  rcases Decidable.em (name = other) with rfl | hname
  · simp [get?, insert]
  · have hbeq : (name == other) = false := beq_eq_false_iff_ne.2 hname
    have herase := get?_erase b name other
    simp only [hname, if_false] at herase ⊢
    simpa only [get?, insert, List.lookup_cons, hbeq] using herase

end Bindings

end DecimalCalculator
