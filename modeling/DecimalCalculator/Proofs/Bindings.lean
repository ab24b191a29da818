import DecimalCalculator.Bindings
import Mathlib.Data.List.Perm.Basic

/-!
# Bindings as finite maps

A list of pairs in which no name occurs twice is the same map in every order of its pairs: a name is
bound to a value exactly when the pair is in the list (`get?_eq_some_iff`), and binding the names
again one after another, in any order, gives a map with the same view (`get?_ofList_of_perm`).
Binding and erasing keep names from occurring twice.

What holds of every bound value (`All`) goes on to hold when a name is erased, and when a name is
bound to another value of which it holds.
-/
namespace DecimalCalculator.Bindings

variable {α : Type}

def All (P : α → Prop) (b : Bindings α) : Prop :=
  ∀ name value, b.get? name = some value → P value

theorem all_empty (P : α → Prop) : (empty : Bindings α).All P := by
  intro name value h
  cases h

theorem All.insert {P : α → Prop} {b : Bindings α} {value : α} (h : b.All P) (hvalue : P value)
    (name : String) : (b.insert name value).All P := by
  intro other found hfound
  rw [get?_insert] at hfound
  split at hfound
  · cases hfound
    exact hvalue
  · exact h other found hfound

theorem All.erase {P : α → Prop} {b : Bindings α} (h : b.All P) (name : String) :
    (b.erase name).All P := by
  intro other found hfound
  rw [get?_erase] at hfound
  split at hfound
  · cases hfound
  · exact h other found hfound

/-- No name occurs twice. -/
def Distinct (b : Bindings α) : Prop :=
  (b.entries.map Prod.fst).Nodup

theorem distinct_empty : (empty : Bindings α).Distinct := List.nodup_nil

theorem Distinct.erase {b : Bindings α} (h : b.Distinct) (name : String) :
    (b.erase name).Distinct :=
  List.Nodup.sublist (List.filter_sublist.map Prod.fst) h

theorem Distinct.insert {b : Bindings α} (h : b.Distinct) (name : String) (value : α) :
    (b.insert name value).Distinct := by
  refine List.nodup_cons.2 ⟨?_, h.erase name⟩
  intro hmem
  obtain ⟨pair, hpair, hname⟩ := List.mem_map.1 hmem
  have hne := (List.mem_filter.1 hpair).2
  simp [hname] at hne

theorem lookup_eq_some_iff {pairs : List (String × α)} (h : (pairs.map Prod.fst).Nodup)
    {name : String} {value : α} : pairs.lookup name = some value ↔ (name, value) ∈ pairs := by
  induction pairs with
  | nil => simp
  | cons pair pairs ih =>
    obtain ⟨key, other⟩ := pair
    obtain ⟨hkey, hrest⟩ := List.nodup_cons.1 h
    by_cases hname : name = key
    · subst hname
      have hnot : (name, value) ∉ pairs := fun hmem => hkey (List.mem_map.2 ⟨_, hmem, rfl⟩)
      simp [hnot, eq_comm]
    · rw [List.lookup_cons, beq_eq_false_iff_ne.2 hname]
      simp [ih hrest, hname]

theorem Distinct.get?_eq_some_iff {b : Bindings α} (h : b.Distinct) {name : String} {value : α} :
    b.get? name = some value ↔ (name, value) ∈ b.entries :=
  lookup_eq_some_iff h

theorem get?_foldl_insert {pairs : List (String × α)} (h : (pairs.map Prod.fst).Nodup)
    (b : Bindings α) (name : String) :
    (pairs.foldl (fun b pair => b.insert pair.1 pair.2) b).get? name =
      (pairs.lookup name).or (b.get? name) := by
  induction pairs generalizing b with
  | nil => rfl
  | cons pair pairs ih =>
    obtain ⟨key, value⟩ := pair
    obtain ⟨hkey, hrest⟩ := List.nodup_cons.1 h
    rw [List.foldl_cons, ih hrest, get?_insert]
    by_cases hname : name = key
    · subst hname
      have hnone : pairs.lookup name = none := by
        cases hlookup : pairs.lookup name with
        | none => rfl
        | some other =>
          exact absurd (List.mem_map.2 ⟨_, (lookup_eq_some_iff hrest).1 hlookup, rfl⟩) hkey
      simp [hnone]
    · rw [List.lookup_cons, beq_eq_false_iff_ne.2 hname, if_neg hname]

theorem get?_ofList_of_perm {b : Bindings α} (h : b.Distinct) {pairs : List (String × α)}
    (hperm : pairs.Perm b.entries) (name : String) : (ofList pairs).get? name = b.get? name := by
  have hnodup : (pairs.map Prod.fst).Nodup := (hperm.map Prod.fst).nodup_iff.2 h
  rw [ofList, get?_foldl_insert hnodup, get?_empty, Option.or_none]
  refine Option.ext fun value => ?_
  rw [lookup_eq_some_iff hnodup, h.get?_eq_some_iff]
  exact hperm.mem_iff

end DecimalCalculator.Bindings
