import DecimalCalculator.Proofs.Lexing.Padding
import DecimalCalculator.Text.Lines
import Mathlib.Data.List.TakeWhile

/-!
# Lines of a script and lines that are typed

The same lines can be given as a script, with newlines between them, or typed, with a newline after
each. Lines are plain when cutting finds them again in either text and trimming takes nothing from
them but gaps. For this a line may not have a character that ends the line of a script, nor the unit
separator, which trimming removes but which may not stand between leaves.
-/
namespace DecimalCalculator

namespace Text

/-- A line that stays one line in a script and that trimming changes only by gaps. -/
def IsPlainLine (line : String) : Prop :=
  ∀ c ∈ line.toList, endsScriptLine c = false ∧ c ≠ '\x1f'

instance (line : String) : Decidable (IsPlainLine line) :=
  List.decidableBAll (fun c => endsScriptLine c = false ∧ c ≠ '\x1f') line.toList

def scriptOfLines (lines : List String) : String :=
  "\n".intercalate lines

def inputOfLines (lines : List String) : String :=
  String.join (lines.map (· ++ "\n"))

/-! ## Trimming -/

def trimmed (line : String) : String := String.ofList (trim line.toList)

theorem ofList_trim (line : String) : String.ofList (trim line.toList) = trimmed line := rfl

theorem exists_trim (cs : List Char) : ∃ lead trail, cs = lead ++ (trim cs ++ trail) ∧
    (∀ c ∈ lead, isBlank c) ∧ ∀ c ∈ trail, isBlank c := by
  have hfront := List.takeWhile_append_dropWhile (p := isBlank) (l := cs)
  have hback := List.takeWhile_append_dropWhile (p := isBlank) (l := (cs.dropWhile isBlank).reverse)
  refine ⟨cs.takeWhile isBlank, ((cs.dropWhile isBlank).reverse.takeWhile isBlank).reverse, ?_,
    fun c hc => List.mem_takeWhile_imp hc,
    fun c hc => List.mem_takeWhile_imp (List.mem_reverse.1 hc)⟩
  rw [trim, ← List.reverse_append, hback, List.reverse_reverse, hfront]

/-- A line is blank when nothing is left of it, and otherwise what is left is not blank. -/
theorem isBlankLine_trimmed (line : String) : isBlankLine (trimmed line) = isBlankLine line := by
  obtain ⟨lead, trail, hline, hlead, htrail⟩ := exists_trim line.toList
  rw [isBlankLine, isBlankLine, trimmed, String.toList_ofList]
  conv =>
    rhs
    rw [hline, List.all_append, List.all_append, List.all_eq_true.2 hlead,
      List.all_eq_true.2 htrail, Bool.true_and, Bool.and_true]

theorem trimmed_eq_empty_iff (line : String) : trimmed line = "" ↔ isBlankLine line = true := by
  constructor
  · intro h
    rw [← isBlankLine_trimmed, h]
    rfl
  · intro h
    have hnone : line.toList.dropWhile isBlank = [] :=
      List.dropWhile_eq_nil_iff.2 (List.all_eq_true.1 h)
    rw [trimmed, trim, hnone]
    rfl

theorem trimmed_ne_empty {line : String} (h : isBlankLine line = false) : trimmed line ≠ "" := by
  rw [Ne, trimmed_eq_empty_iff, h]
  exact Bool.false_ne_true

theorem isGap_of_isBlank {c : Char} (h : isBlank c) (hends : endsScriptLine c = false)
    (hunit : c ≠ '\x1f') : isGap c := by
  rw [isBlank, Bool.or_eq_true] at h
  rcases h with hcommon | hseparator
  · rw [isGap, hcommon, Bool.true_or]
  · simp only [Bool.and_eq_true, decide_eq_true_eq] at hseparator
    have hlast : c.toNat = 0x1F := by
      simp only [endsScriptLine, Bool.or_eq_false_iff, Bool.and_eq_false_iff,
        decide_eq_false_iff_not] at hends
      omega
    exact absurd (Char.toNat_inj.1 hlast) hunit

theorem readAlike_trimmed {line : String} (h : IsPlainLine line) :
    Token.ReadAlike (Token.ofSource (trimmed line)) (Token.ofSource line) := by
  obtain ⟨lead, trail, hline, hlead, htrail⟩ := exists_trim line.toList
  have hgap : ∀ c ∈ line.toList, isBlank c → isGap c := fun c hc hblank =>
    isGap_of_isBlank hblank (h c hc).1 (h c hc).2
  refine Token.ofSource_padded (fun c hc => hgap c ?_ (hlead c hc))
    (fun c hc => hgap c ?_ (htrail c hc)) (by rw [trimmed, String.toList_ofList]; exact hline)
  · rw [hline]
    exact List.mem_append_left _ hc
  · rw [hline]
    exact List.mem_append_right _ (List.mem_append_right _ hc)

/-! ## Cutting -/

section

variable {ends : Char → Bool} {cs : List Char} (hcs : ∀ c ∈ cs, ends c = false)
include hcs

theorem cutLines_append {stop : Char} (hstop : ends stop) (rest : List Char) :
    cutLines ends (cs ++ stop :: rest) = cs :: cutLines ends rest := by
  induction cs with
  | nil => rw [List.nil_append, cutLines, if_pos hstop]
  | cons c cs ih =>
    obtain ⟨hc, hrest⟩ := List.forall_mem_cons.1 hcs
    rw [List.cons_append, cutLines, hc, ih hrest]
    rfl

/-- The last line does not count if it is empty. -/
theorem cutLines_last : cutLines ends cs = if cs = [] then [] else [cs] := by
  induction cs with
  | nil => rfl
  | cons c cs ih =>
    obtain ⟨hc, hrest⟩ := List.forall_mem_cons.1 hcs
    rw [cutLines, hc, ih hrest, if_neg (List.cons_ne_nil c cs), if_neg Bool.false_ne_true]
    by_cases hnil : cs = []
    · rw [if_pos hnil, hnil]
    · rw [if_neg hnil]

end

theorem unifyNewlines_append {cs : List Char} (h : ∀ c ∈ cs, c ≠ '\r') (rest : List Char) :
    unifyNewlines (cs ++ rest) = cs ++ unifyNewlines rest := by
  induction cs with
  | nil => rfl
  | cons c cs ih =>
    obtain ⟨hc, hcs⟩ := List.forall_mem_cons.1 h
    rw [List.cons_append, unifyNewlines.eq_4 c _ (fun _ hreturn _ => hc hreturn) hc, ih hcs]
    rfl

theorem typedLines_inputOfLines {lines : List String} (h : ∀ line ∈ lines, IsPlainLine line) :
    typedLines (inputOfLines lines) = lines := by
  induction lines with
  | nil => rfl
  | cons line lines ih =>
    obtain ⟨hline, hrest⟩ := List.forall_mem_cons.1 h
    have hnewline : ∀ c ∈ line.toList, (c == '\n') = false := by
      intro c hc
      rw [beq_eq_false_iff_ne]
      rintro rfl
      cases (hline '\n' hc).1
    have hinput : (inputOfLines (line :: lines)).toList =
        line.toList ++ '\n' :: (inputOfLines lines).toList := by
      simp [inputOfLines, String.join_cons]
    have hcut := cutLines_append hnewline (beq_self_eq_true '\n') (inputOfLines lines).toList
    rw [typedLines, hinput, hcut, List.map_cons, String.ofList_toList]
    exact congrArg (line :: ·) (ih hrest)

theorem IsPlainLine.ne_return {line : String} (h : IsPlainLine line) :
    ∀ c ∈ line.toList, c ≠ '\r' := by
  rintro c hc rfl
  cases (h '\r' hc).1

theorem scriptLines_cons {line text : String} {rest : List Char} (h : IsPlainLine line)
    (htext : text.toList = line.toList ++ '\n' :: rest) :
    scriptLines text = line :: scriptLines (String.ofList rest) := by
  have hunified : unifyNewlines text.toList = line.toList ++ '\n' :: unifyNewlines rest := by
    rw [htext, unifyNewlines_append h.ne_return]
    rfl
  have hends : endsScriptLine '\n' = true := rfl
  have hcut := cutLines_append (fun c hc => (h c hc).1) hends (unifyNewlines rest)
  rw [scriptLines, hunified, hcut, List.map_cons, String.ofList_toList, scriptLines,
    String.toList_ofList]

theorem scriptLines_last {line : String} (h : IsPlainLine line) :
    scriptLines line = if line = "" then [] else [line] := by
  have hunified : unifyNewlines line.toList = line.toList := by
    simpa [unifyNewlines] using unifyNewlines_append h.ne_return []
  have hempty : line.toList = [] ↔ line = "" := String.toList_eq_nil_iff
  rw [scriptLines, hunified, cutLines_last fun c hc => (h c hc).1]
  simp only [hempty]
  split
  · rfl
  · rw [List.map_singleton, String.ofList_toList]

/-- The lines of a script are found again, except that the last one does not count if it is
empty. -/
theorem scriptLines_scriptOfLines {lines : List String} (h : ∀ line ∈ lines, IsPlainLine line) :
    scriptLines (scriptOfLines lines) = lines ∨
      scriptLines (scriptOfLines lines) ++ [""] = lines := by
  induction lines with
  | nil => exact .inl rfl
  | cons line lines ih =>
    obtain ⟨hline, hrest⟩ := List.forall_mem_cons.1 h
    cases lines with
    | nil =>
      rw [scriptOfLines, String.intercalate_singleton, scriptLines_last hline]
      split
      · next hempty => exact .inr (by rw [hempty]; rfl)
      · exact .inl rfl
    | cons next lines =>
      have htext : (scriptOfLines (line :: next :: lines)).toList =
          line.toList ++ '\n' :: (scriptOfLines (next :: lines)).toList := by
        simp [scriptOfLines, String.intercalate_cons_cons]
      rw [scriptLines_cons hline htext, String.ofList_toList, List.cons_append]
      exact (ih hrest).imp (congrArg (line :: ·)) (congrArg (line :: ·))

end Text

end DecimalCalculator
