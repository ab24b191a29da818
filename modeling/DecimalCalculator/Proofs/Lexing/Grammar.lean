import DecimalCalculator.Proofs.Lexing.Leaves

/-!
# The leaves of a text

What the scanner does, said without the scanner. A leaf is a number, a name or an operator; the
leaf at the front of a text is the longest one there (`IsLongest`); and a text is cut into leaves
from left to right, each behind a gap, until nothing but a gap is left (`Cuts`). Every leaf
remembers the text before it, and this text says in which line and column the leaf begins.

`longest?_eq_some_iff` and `scanFrom_behind` are the two agreements: the scanner finds the longest
leaf, and it cuts a whole text exactly when the text can be cut.
-/
namespace DecimalCalculator

/-- The place behind a text. The lines are those that newlines begin, and a column counts the
characters since the last of them. -/
def Cursor.behind (before : List Char) : Cursor :=
  ⟨before.count '\n' + 1, (before.reverse.takeWhile (· != '\n')).length + 1⟩

theorem Cursor.foldl_after_behind (before cs : List Char) :
    cs.foldl Cursor.after (behind before) = behind (before ++ cs) := by
  induction cs generalizing before with
  | nil => rw [List.foldl_nil, List.append_nil]
  | cons c cs ih =>
    have hstep : (behind before).after c = behind (before ++ [c]) := by
      by_cases hc : c = '\n'
      · subst hc
        simp [after, behind, List.count_append]
      · simp [after, behind, List.count_append, hc]
    rw [List.foldl_cons, hstep, ih, List.append_assoc, List.singleton_append]

namespace Lexeme

inductive IsLeaf : LexemeKind → List Char → Prop
  | number {text : List Char} : IsNumeral text → IsLeaf .number text
  | name {text : List Char} : IsName text → IsLeaf .name text
  | operator {text : List Char} : IsSign text → IsLeaf .operator text

/-- The text is a leaf, and no leaf at the front of `cs` is longer. -/
structure IsLongest (cs : List Char) (kind : LexemeKind) (text : List Char) : Prop where
  front : text <+: cs
  leaf : IsLeaf kind text
  longest : ∀ kind' text', IsLeaf kind' text' → text' <+: cs → text'.length ≤ text.length

/-- A leaf and the text that stands before it. -/
structure Leaf where
  kind : LexemeKind
  text : List Char
  before : List Char
  deriving DecidableEq, Repr

/-- Behind the text `before`, the text `cs` is cut into these leaves. -/
inductive Cuts : List Char → List Char → List Leaf → Prop
  | done {before gap : List Char} : (∀ c ∈ gap, Text.isGap c) → Cuts before gap []
  | leaf {before gap text rest : List Char} {kind : LexemeKind} {leaves : List Leaf} :
    (∀ c ∈ gap, Text.isGap c) → IsLongest (text ++ rest) kind text →
    Cuts (before ++ gap ++ text) rest leaves →
    Cuts before (gap ++ (text ++ rest)) (⟨kind, text, before ++ gap⟩ :: leaves)

def Leaf.lexeme (leaf : Leaf) : Lexeme :=
  ⟨leaf.kind, .text (String.ofList leaf.text), some (Cursor.behind leaf.before).position⟩

/-! ## The longest leaf -/

theorem longestNumber_prefix (first : Char) (rest : List Char) :
    longestNumber first rest <+: first :: rest := by
  have hsplit : rest.takeWhile Char.isDigit ++ rest.dropWhile Char.isDigit = rest :=
    List.takeWhile_append_dropWhile
  rw [longestNumber, List.cons_append, List.cons_prefix_cons]
  refine ⟨rfl, ?_⟩
  conv =>
    rhs
    rw [← hsplit]
  rw [List.prefix_append_right_inj]
  split
  · next fraction heq =>
    rw [heq, List.cons_prefix_cons]
    exact ⟨rfl, List.takeWhile_prefix _⟩
  · exact List.nil_prefix

theorem markedDigits_prefix {kind kind' : LexemeKind} {mark : Char} {rest text : List Char}
    (h : markedDigits kind mark rest = some (kind', text)) : text <+: mark :: rest := by
  unfold markedDigits at h
  split at h
  · cases h
  · cases h
    rw [List.cons_prefix_cons]
    exact ⟨rfl, List.takeWhile_prefix _⟩

theorem longest?_prefix {cs text : List Char} {kind : LexemeKind}
    (h : longest? cs = some (kind, text)) : text <+: cs := by
  cases cs with
  | nil => cases h
  | cons c rest =>
    rw [longest?] at h
    split_ifs at h with hdigit hpoint hdollar hname hoperator hdouble
    · cases h
      exact longestNumber_prefix c rest
    · exact markedDigits_prefix h
    · exact markedDigits_prefix h
    · cases h
      rw [List.cons_prefix_cons]
      exact ⟨rfl, List.takeWhile_prefix _⟩
    · cases h
      exact ⟨rest, rfl⟩
    · cases h
      rw [Bool.and_eq_true, beq_iff_eq] at hdouble
      obtain ⟨more, rfl⟩ := List.head?_eq_some_iff.1 hdouble.2
      exact ⟨more, rfl⟩

theorem isLeaf_of_longest? {cs text : List Char} {kind : LexemeKind}
    (h : longest? cs = some (kind, text)) : IsLeaf kind text := by
  rcases longest?_shape h with ⟨rfl, htext⟩ | ⟨rfl, htext⟩ | ⟨rfl, htext⟩
  · exact .number htext
  · exact .name htext
  · exact .operator htext

theorem longest?_of_isLeaf {text : List Char} {kind : LexemeKind} (h : IsLeaf kind text) :
    longest? text = some (kind, text) := by
  have hbreaks : Breaks [] := by
    intro c hc
    cases hc
  suffices hnil : longest? (text ++ []) = some (kind, text) by rwa [List.append_nil] at hnil
  cases h with
  | number htext => exact longest?_numeral htext hbreaks
  | name htext => exact longest?_name htext hbreaks
  | operator htext =>
    rcases htext with rfl | ⟨s, rfl⟩
    · exact longest?_equals []
    · exact longest?_symbol s []

theorem length_le_takeWhile {p : Char → Bool} {xs : List Char} (h : ∀ x ∈ xs, p x)
    (ys : List Char) : xs.length ≤ ((xs ++ ys).takeWhile p).length := by
  rw [List.takeWhile_append_of_pos h, List.length_append]
  exact Nat.le_add_right _ _

theorem length_le_markedDigits {ds : List Char} (hne : ds ≠ []) (h : ∀ c ∈ ds, c.isDigit)
    (kind : LexemeKind) (mark : Char) (rest : List Char) :
    ∃ text, markedDigits kind mark (ds ++ rest) = some (kind, text) ∧
      (mark :: ds).length ≤ text.length := by
  have hle := length_le_takeWhile h rest
  have hpos := List.length_pos_iff.2 hne
  unfold markedDigits
  split
  · next hnil =>
    rw [hnil] at hle
    exact absurd (Nat.lt_of_lt_of_le hpos hle) (Nat.lt_irrefl 0)
  · exact ⟨_, rfl, Nat.succ_le_succ hle⟩

theorem length_le_longestNumber {first : Char} {ds : List Char} (h : ∀ c ∈ ds, c.isDigit)
    (rest : List Char) : (first :: ds).length ≤ (longestNumber first (ds ++ rest)).length := by
  have hle := length_le_takeWhile h rest
  rw [longestNumber, List.length_append, List.length_cons, List.length_cons]
  omega

theorem length_le_longestNumber_pointed {first : Char} {ds fraction : List Char}
    (h : ∀ c ∈ ds, c.isDigit) (hfraction : ∀ c ∈ fraction, c.isDigit) (rest : List Char) :
    (first :: (ds ++ '.' :: fraction)).length ≤
      (longestNumber first (ds ++ '.' :: (fraction ++ rest))).length := by
  have hpoint : ∀ c, ('.' :: (fraction ++ rest)).head? = some c → c.isDigit = false := by
    rintro _ ⟨⟩
    rfl
  have hle := length_le_takeWhile hfraction rest
  rw [longestNumber, takeWhile_eq_of_stop h hpoint, dropWhile_eq_of_stop h hpoint]
  simp only [List.length_cons, List.length_append]
  omega

/-- Where a leaf stands in front, a leaf is found, and none that is shorter. -/
theorem exists_longest?_of_isLeaf {text : List Char} {kind : LexemeKind} (h : IsLeaf kind text)
    (rest : List Char) : ∃ kind' text', longest? (text ++ rest) = some (kind', text') ∧
      text.length ≤ text'.length := by
  cases h with
  | number htext =>
    cases htext with
    | whole hne hdigits =>
      obtain ⟨d, ds, rfl⟩ := List.exists_cons_of_ne_nil hne
      obtain ⟨hd, hds⟩ := List.forall_mem_cons.1 hdigits
      exact ⟨_, _, if_pos hd, length_le_longestNumber hds rest⟩
    | @pointed whole fraction hne hwhole hfraction =>
      rw [List.append_assoc, List.cons_append]
      cases whole with
      | nil =>
        have hpoint : '.'.isDigit = false := rfl
        obtain ⟨text', htext', hle⟩ := length_le_markedDigits hne hfraction .number '.' rest
        exact ⟨.number, text', by simpa [longest?, hpoint] using htext', hle⟩
      | cons d ds =>
        obtain ⟨hd, hds⟩ := List.forall_mem_cons.1 hwhole
        exact ⟨_, _, if_pos hd, length_le_longestNumber_pointed hds hfraction rest⟩
  | name htext =>
    cases htext with
    | @word first more hfirst hmore =>
      exact ⟨_, _, longest?_of_isNameStart hfirst (more ++ rest),
        Nat.succ_le_succ (length_le_takeWhile hmore rest)⟩
    | @positional ds hne hdigits =>
      have hdollar : '$'.isDigit = false := rfl
      obtain ⟨text', htext', hle⟩ := length_le_markedDigits hne hdigits .name '$' rest
      exact ⟨.name, text', by simpa [longest?, hdollar] using htext', hle⟩
  | operator htext =>
    rcases htext with rfl | ⟨s, rfl⟩
    · exact ⟨_, _, longest?_equals rest, Nat.le_refl _⟩
    · exact ⟨_, _, longest?_symbol s rest, Nat.le_refl _⟩

theorem isLongest_of_longest? {cs text : List Char} {kind : LexemeKind}
    (h : longest? cs = some (kind, text)) : IsLongest cs kind text where
  front := longest?_prefix h
  leaf := isLeaf_of_longest? h
  longest kind' text' hleaf hfront := by
    obtain ⟨rest, rfl⟩ := hfront
    obtain ⟨kind'', text'', hfound, hle⟩ := exists_longest?_of_isLeaf hleaf rest
    rw [h] at hfound
    cases hfound
    exact hle

theorem longest?_eq_some_iff {cs text : List Char} {kind : LexemeKind} :
    longest? cs = some (kind, text) ↔ IsLongest cs kind text := by
  refine ⟨isLongest_of_longest?, fun h => ?_⟩
  obtain ⟨rest, hrest⟩ := h.front
  obtain ⟨kind', text', hfound, -⟩ := exists_longest?_of_isLeaf h.leaf rest
  rw [hrest] at hfound
  have hother := isLongest_of_longest? hfound
  have hlength : text'.length = text.length :=
    Nat.le_antisymm (h.longest _ _ hother.leaf hother.front)
      (hother.longest _ _ h.leaf h.front)
  have htext : text' = text :=
    (List.prefix_of_prefix_length_le hother.front h.front hlength.le).eq_of_length hlength
  have halone := longest?_of_isLeaf hother.leaf
  rw [htext, longest?_of_isLeaf h.leaf] at halone
  rw [hfound, htext]
  exact halone.symm

theorem IsLongest.ne_nil {cs text : List Char} {kind : LexemeKind}
    (h : IsLongest cs kind text) : text ≠ [] :=
  longest?_ne_nil (longest?_eq_some_iff.2 h)

/-! ## Cutting a text -/

theorem Cuts.isLeaf {before cs : List Char} {leaves : List Leaf} (h : Cuts before cs leaves) :
    ∀ leaf ∈ leaves, IsLeaf leaf.kind leaf.text := by
  induction h with
  | done _ => exact List.forall_mem_nil _
  | leaf _ hlongest _ ih => exact List.forall_mem_cons.2 ⟨hlongest.leaf, ih⟩

/-- A text is cut in at most one way. -/
theorem Cuts.unique {before cs : List Char} {leaves leaves' : List Leaf}
    (h : Cuts before cs leaves) (h' : Cuts before cs leaves') : leaves = leaves' := by
  induction h generalizing leaves' with
  | done hgap =>
    cases h' with
    | done _ => rfl
    | leaf hgap' hlongest' _ =>
      have hdrop := dropWhile_eq_of_stop hgap'
        (isGap_head?_of_longest? (longest?_eq_some_iff.2 hlongest'))
      rw [List.dropWhile_eq_nil_iff.2 hgap] at hdrop
      exact absurd (List.append_eq_nil_iff.1 hdrop.symm).1 hlongest'.ne_nil
  | @leaf _ gap text rest _ _ hgap hlongest _ ih =>
    have hstop := isGap_head?_of_longest? (longest?_eq_some_iff.2 hlongest)
    have htake := takeWhile_eq_of_stop hgap hstop
    have hdrop := dropWhile_eq_of_stop hgap hstop
    generalize hcs : gap ++ (text ++ rest) = cs at h' htake hdrop
    cases h' with
    | done hgap' =>
      rw [List.dropWhile_eq_nil_iff.2 hgap'] at hdrop
      exact absurd (List.append_eq_nil_iff.1 hdrop.symm).1 hlongest.ne_nil
    | @leaf _ gap' text' rest' _ _ hgap' hlongest' hcuts' =>
      have hstop' := isGap_head?_of_longest? (longest?_eq_some_iff.2 hlongest')
      rw [takeWhile_eq_of_stop hgap' hstop'] at htake
      rw [dropWhile_eq_of_stop hgap' hstop'] at hdrop
      have hfound := longest?_eq_some_iff.2 hlongest'
      rw [hdrop, longest?_eq_some_iff.2 hlongest] at hfound
      cases hfound
      cases htake
      cases List.append_cancel_left hdrop
      rw [ih hcuts']

theorem Cuts.scanFrom {before cs : List Char} {leaves : List Leaf} (h : Cuts before cs leaves) :
    Lexeme.scanFrom (.behind before) cs = some (leaves.map Leaf.lexeme) := by
  induction h with
  | @done before gap hgap =>
    have hdrop : gap.dropWhile Text.isGap = [] := List.dropWhile_eq_nil_iff.2 hgap
    rw [Lexeme.scanFrom]
    split
    · rfl
    · next hcons =>
      rw [hdrop] at hcons
      cases hcons
  | leaf hgap hlongest _ ih =>
    rw [scanFrom_gap_leaf hgap (longest?_eq_some_iff.2 hlongest), Cursor.foldl_after_behind,
      Cursor.foldl_after_behind, ih]
    rfl

theorem exists_cuts_of_scanFrom {before cs : List Char} {lexemes : List Lexeme}
    (h : Lexeme.scanFrom (.behind before) cs = some lexemes) :
    ∃ leaves, Cuts before cs leaves ∧ lexemes = leaves.map Leaf.lexeme := by
  induction hlength : cs.length using Nat.strongRecOn generalizing before cs lexemes with
  | ind length ih =>
    have hgap : ∀ c ∈ cs.takeWhile Text.isGap, Text.isGap c := fun c hc => List.mem_takeWhile_imp hc
    have hsplit : cs.takeWhile Text.isGap ++ cs.dropWhile Text.isGap = cs :=
      List.takeWhile_append_dropWhile
    cases hdrop : cs.dropWhile Text.isGap with
    | nil =>
      rw [hdrop, List.append_nil] at hsplit
      rw [hsplit] at hgap
      have hdone : Cuts before cs [] := .done hgap
      rw [hdone.scanFrom] at h
      cases h
      exact ⟨[], hdone, rfl⟩
    | cons c rest =>
      cases hlongest : longest? (c :: rest) with
      | none =>
        rw [Lexeme.scanFrom] at h
        split at h
        · next hnil =>
          rw [hdrop] at hnil
          cases hnil
        · next c' rest' hcons =>
          rw [hdrop] at hcons
          cases hcons
          split at h
          · cases h
          · next hsome =>
            rw [hlongest] at hsome
            cases hsome
      | some found =>
        obtain ⟨kind, text⟩ := found
        obtain ⟨after, hafter⟩ := longest?_prefix hlongest
        have hlt := length_drop_longest?_lt hdrop hlongest
        rw [← hafter, List.drop_left] at hlt
        rw [hdrop, ← hafter] at hsplit
        rw [← hafter] at hlongest
        rw [← hsplit, scanFrom_gap_leaf hgap hlongest, Cursor.foldl_after_behind,
          Cursor.foldl_after_behind] at h
        obtain ⟨more, hmore, rfl⟩ := Option.map_eq_some_iff.1 h
        obtain ⟨leaves, hcuts, rfl⟩ := ih _ (hlength ▸ hlt) hmore rfl
        have hwhole := Cuts.leaf hgap (longest?_eq_some_iff.1 hlongest) hcuts
        rw [hsplit] at hwhole
        exact ⟨_, hwhole, rfl⟩

theorem scanFrom_behind {before cs : List Char} {lexemes : List Lexeme} :
    Lexeme.scanFrom (.behind before) cs = some lexemes ↔
      ∃ leaves, Cuts before cs leaves ∧ lexemes = leaves.map Leaf.lexeme := by
  refine ⟨exists_cuts_of_scanFrom, ?_⟩
  rintro ⟨leaves, hcuts, rfl⟩
  exact hcuts.scanFrom

/-- The scanner cuts a source text exactly as it can be cut. -/
theorem scan_eq_some_iff {source : String} {lexemes : List Lexeme} :
    scan source = some lexemes ↔
      ∃ leaves, Cuts [] source.toList leaves ∧ lexemes = leaves.map Leaf.lexeme := by
  have hstart : Cursor.start = .behind [] := rfl
  rw [scan, hstart]
  exact scanFrom_behind

end Lexeme

end DecimalCalculator
