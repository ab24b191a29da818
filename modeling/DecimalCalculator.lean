import DecimalCalculator.Datum.Print
import DecimalCalculator.Main
import DecimalCalculator.Proofs.Evaluation.Completeness
import DecimalCalculator.Proofs.Evaluation.Depth
import DecimalCalculator.Proofs.Evaluation.Termination
import DecimalCalculator.Proofs.Session.Bodies
import DecimalCalculator.Proofs.Session.Outcomes
import DecimalCalculator.Proofs.Session.Positional
import DecimalCalculator.Proofs.Session.SaveFormat
import DecimalCalculator.Proofs.Evaluation.Finiteness
import DecimalCalculator.Proofs.Evaluation.Frame
import DecimalCalculator.Proofs.Lexing.Grammar
import DecimalCalculator.Proofs.Lexing.Reading
import DecimalCalculator.Proofs.Lexing.Image
import DecimalCalculator.Proofs.Arithmetic.Exact
import DecimalCalculator.Proofs.Evaluation.Pure
import DecimalCalculator.Proofs.Evaluation.Exactness
import DecimalCalculator.Proofs.Evaluation.Mentions
import DecimalCalculator.Proofs.Arithmetic.Narrowing
import DecimalCalculator.Proofs.Session.Definitions
import DecimalCalculator.Proofs.Console.Lines
import DecimalCalculator.Proofs.Console.Modes
import DecimalCalculator.Proofs.Evaluation.Capturing
import DecimalCalculator.Proofs.Arithmetic.Division
import DecimalCalculator.Proofs.Evaluation.Substitution
import DecimalCalculator.Proofs.Arithmetic.Power
import DecimalCalculator.Proofs.Evaluation.AcceptedBodies
import DecimalCalculator.Proofs.Evaluation.Assigning
import DecimalCalculator.Proofs.Evaluation.Grouping
import DecimalCalculator.Proofs.Evaluation.Bitwise
import DecimalCalculator.Proofs.Arithmetic.Shifting
import DecimalCalculator.Proofs.Session.PrintedNumbers
import DecimalCalculator.Proofs.Evaluation.TermOrder
import DecimalCalculator.Proofs.Session.UnclosedParens
import DecimalCalculator.Proofs.Evaluation.Chains
import DecimalCalculator.Proofs.Evaluation.GroupTrace
import DecimalCalculator.Proofs.Lexing.Spacing
