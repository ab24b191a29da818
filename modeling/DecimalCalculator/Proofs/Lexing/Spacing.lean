import DecimalCalculator.Proofs.Lexing.Padding
import DecimalCalculator.Session

/-!
# Gaps between leaves

The tokens of a text depend on its leaves alone. Every leaf may be written down again with a gap
behind it, and is then found again: a longer leaf would have to hold the first character of the gap,
and no leaf has one in it (`IsLeaf.isLongest`). So whatever gaps the leaves of a text are given, the
text is cut into the same leaves, has the same tokens and is evaluated alike (`ofSource_respaced`).

Between two leaves the gap must not be empty: without one they may be read as a single leaf, as `1`
and `.5` are.
-/
namespace DecimalCalculator

namespace Lexeme

/-- The texts of leaves in order, with a gap before the first and the given gap behind each. -/
def respace (lead : List Char) : List (List Char × List Char) → List Char
  | [] => lead
  | (text, gap) :: more => lead ++ (text ++ respace gap more)

/-- A gap before the first leaf and gaps behind each, of which those between two leaves are not
empty. -/
structure IsSpacing (lead : List Char) (gaps : List (List Char)) : Prop where
  before : ∀ c ∈ lead, Text.isGap c
  behind : ∀ gap ∈ gaps, ∀ c ∈ gap, Text.isGap c
  apart : ∀ gap ∈ gaps.dropLast, gap ≠ []

section

variable {lead gap : List Char} {gaps : List (List Char)}

theorem IsSpacing.tail (h : IsSpacing lead (gap :: gaps)) : IsSpacing gap gaps := by
  obtain ⟨hgap, hgaps⟩ := List.forall_mem_cons.1 h.behind
  refine ⟨hgap, hgaps, fun gap' hgap' => h.apart gap' ?_⟩
  cases gaps with
  | nil => cases hgap'
  | cons _ _ => exact List.mem_cons_of_mem _ hgap'

/-- What stands behind a leaf is nothing or begins with a gap. -/
theorem IsSpacing.isGap_head? (h : IsSpacing lead (gap :: gaps)) (texts : List (List Char))
    {c : Char} (hc : (respace gap (texts.zip gaps)).head? = some c) : Text.isGap c := by
  cases gap with
  | nil =>
    -- Only the last gap may be empty, and then nothing is left.
    cases gaps with
    | nil =>
      rw [List.zip_nil_right] at hc
      cases hc
    | cons gap gaps => exact absurd rfl (h.apart [] List.mem_cons_self)
  | cons first gap =>
    have hfirst : (respace (first :: gap) (texts.zip gaps)).head? = some first := by
      cases texts.zip gaps <;> rfl
    rw [hfirst] at hc
    cases hc
    exact h.tail.before c List.mem_cons_self

end

theorem IsLeaf.isLongest {kind : LexemeKind} {text rest : List Char} (h : IsLeaf kind text)
    (hrest : ∀ c, rest.head? = some c → Text.isGap c) : IsLongest (text ++ rest) kind text := by
  refine ⟨List.prefix_append text rest, h, fun kind' text' hleaf hfront => ?_⟩
  obtain ⟨back, hback⟩ := hfront
  rcases List.append_eq_append_iff.1 hback with ⟨more, rfl, -⟩ | ⟨more, rfl, rfl⟩
  · simp
  · cases more with
    | nil => simp
    | cons c more =>
      have hc := hleaf.isGap c (by simp)
      rw [hrest c rfl] at hc
      cases hc

/-- Leaves that are written down again with gaps between them are found again. -/
theorem exists_cuts_respace {leaves : List Leaf}
    (hleaves : ∀ leaf ∈ leaves, IsLeaf leaf.kind leaf.text) {lead : List Char}
    {gaps : List (List Char)} (hgaps : IsSpacing lead gaps)
    (hlength : gaps.length = leaves.length) (before : List Char) :
    ∃ leaves', Cuts before (respace lead ((leaves.map Leaf.text).zip gaps)) leaves' ∧
      leaves'.map Leaf.content = leaves.map Leaf.content := by
  induction leaves generalizing lead gaps before with
  | nil => exact ⟨[], .done hgaps.before, rfl⟩
  | cons leaf leaves ih =>
    obtain ⟨gap, gaps, rfl⟩ := List.exists_cons_of_length_eq_add_one hlength
    obtain ⟨hleaf, hrest⟩ := List.forall_mem_cons.1 hleaves
    obtain ⟨leaves', hcuts, hcontents⟩ := ih hrest hgaps.tail (Nat.succ.inj hlength)
      (before ++ lead ++ leaf.text)
    have hlongest := hleaf.isLongest fun c => hgaps.isGap_head? (leaves.map Leaf.text)
    exact ⟨_, .leaf hgaps.before hlongest hcuts, congrArg (leaf.content :: ·) hcontents⟩

theorem Cuts.isBlankLine {source : String} {leaves : List Leaf} (h : Cuts [] source.toList leaves)
    (hne : leaves ≠ []) : Text.isBlankLine source = false := by
  generalize hcs : source.toList = cs at h
  cases h with
  | done _ => exact absurd rfl hne
  | leaf _ hlongest _ =>
    obtain ⟨c, text, rfl⟩ := List.exists_cons_of_ne_nil hlongest.ne_nil
    obtain ⟨hlow, hhigh⟩ := hlongest.leaf.visible c List.mem_cons_self
    exact isBlankLine_of_mem (c := c) (by simp [hcs]) (isBlank_of_visible hlow hhigh)

end Lexeme

namespace Token

open Lexeme

/-- The tokens of a text, and with them its evaluation, stay the same when its leaves are given
other gaps: whichever characters that may stand in a gap are put before, between and behind them, at
least one of them between any two leaves. -/
theorem ofSource_respaced {source : String} {ts : List Token} (h : ofSource source = .ok ts) :
    ∃ leaves, Cuts [] source.toList leaves ∧
      ∀ lead gaps spaced, IsSpacing lead gaps → gaps.length = leaves.length →
        String.toList spaced = respace lead ((leaves.map Leaf.text).zip gaps) →
        ofSource spaced = .ok ts ∧
        ∀ session : Session, session.evaluate spaced = session.evaluate source ∧
          (leaves ≠ [] → session.handleLine spaced = session.handleLine source) := by
  obtain ⟨leaves, hleaves, -⟩ := exists_ofSource_iff.1 ⟨ts, h⟩
  refine ⟨leaves, hleaves, fun lead gaps spaced hgaps hlength hspaced => ?_⟩
  obtain ⟨leaves', hcuts, hsame⟩ := exists_cuts_respace hleaves.isLeaf hgaps hlength []
  rw [← hspaced] at hcuts
  obtain ⟨r, hreads, hr⟩ := (reads_of_ofSource hleaves h).of_contents hsame
  have htokens : ofSource spaced = .ok ts := by
    rw [hreads.ofSource hcuts]
    cases r with
    | ok ts' =>
      cases hr
      rfl
    | error leaf => cases hr
  have hevaluate (session : Session) : session.evaluate spaced = session.evaluate source := by
    rw [Session.evaluate, Session.evaluate, htokens, h]
  refine ⟨htokens, fun session => ⟨hevaluate session, fun hne => ?_⟩⟩
  have hne' : leaves' ≠ [] := by
    rintro rfl
    exact hne (List.map_eq_nil_iff.1 hsame.symm)
  rw [Session.handleLine, Session.handleLine, hcuts.isBlankLine hne', hleaves.isBlankLine hne,
    hevaluate session]

theorem ofSource_assignment :
    ofSource "x=2.y" = .ok [.assign "x", .number (.finite false 2 0), .read "y"] := by
  have hlast : Reads (assignmentLeaves.drop 3) (.ok [.read "y"]) := .name rfl (by simp) .nil
  have hvalue : Reads (assignmentLeaves.drop 2) (.ok [.number (.finite false 2 0), .read "y"]) :=
    .number rfl hlast
  have hreads : Reads assignmentLeaves
      (.ok [.assign "x", .number (.finite false 2 0), .read "y"]) := .assign rfl rfl hvalue
  exact hreads.ofSource cuts_assignmentLeaves

/-- With gaps of several kinds around its leaves `x=2.y` has the same tokens and evaluates alike. -/
theorem spaced_assignment :
    ofSource "\t x = 2. \n\u3000y" =
      .ok [.assign "x", .number (.finite false 2 0), .read "y"] ∧
    ∀ session : Session, session.evaluate "\t x = 2. \n\u3000y" = session.evaluate "x=2.y" ∧
      session.handleLine "\t x = 2. \n\u3000y" = session.handleLine "x=2.y" := by
  obtain ⟨leaves, hcuts, hspaced⟩ := ofSource_respaced ofSource_assignment
  obtain rfl := hcuts.unique cuts_assignmentLeaves
  have hgaps : IsSpacing ['\t', ' '] [[' '], [' '], [' ', '\n', '\u3000'], []] := by
    have hbehind : [[' '], [' '], [' ', '\n', '\u3000'], []].all (·.all Text.isGap) := rfl
    exact ⟨List.all_eq_true.1 rfl, by simpa using hbehind, by decide⟩
  obtain ⟨htokens, hsame⟩ := hspaced _ _ "\t x = 2. \n\u3000y" hgaps rfl (by decide)
  exact ⟨htokens, fun session => ⟨(hsame session).1, (hsame session).2 (List.cons_ne_nil _ _)⟩⟩

end Token

end DecimalCalculator
