import SortLast.CommandLine.Report
import SortLast.Error
import SortLast.Scalar.Decimal
import SortLast.Text.Integer
import SortLast.Text.Quoted
import SortLast.Text.Words

/-!
# Command line errors

Why the arguments of a program cannot be used, and how that is reported.
-/

namespace SortLast

/-- Why the arguments of a program cannot be used. -/
inductive OptionError where
  | missingValue (option : String)
  | unknownOption (text : String)
  | badCount (option : String) (cause : Text.IntegerError)
  | badScalar (option : String) (cause : Single.ParseError)
  | badSize (text : String)
  | badSide (cause : Text.IntegerError)
  | badDims (text : String) (cause : Text.IntegerError)
  | dimsCount (text : String)
  | unknownPolicy (text : String)
  | badColour (text : String) (cause : Single.ParseError)
  | channelCount (text : String)
  | badParticipant (cause : ConfigurationError)
  | noParticipant
  deriving DecidableEq, Repr

/-- How an option error is reported. -/
def OptionError.report : OptionError → Report
  | missingValue option => ⟨option ++ " requires a value", []⟩
  | unknownOption text => ⟨"unknown option: " ++ text, []⟩
  | badCount option cause => ⟨option, [cause.message]⟩
  | badScalar option cause => ⟨option, [cause.message]⟩
  | badSize text => ⟨"expected AxB, got " ++ Text.quote text, []⟩
  | badSide cause => ⟨cause.message, []⟩
  | badDims text cause => ⟨"invalid volume dimensions " ++ Text.quote text, [cause.message]⟩
  | dimsCount text => ⟨"expected XxYxZ, got " ++ Text.quote text, []⟩
  | unknownPolicy text =>
    ⟨"unknown policy " ++ Text.quote text ++ ", expected reuse, skip or abort", []⟩
  | badColour text cause => ⟨"invalid color " ++ Text.quote text, [cause.message]⟩
  | channelCount text => ⟨"expected R,G,B[,A], got " ++ Text.quote text, []⟩
  | badParticipant cause => ⟨(Failure.configuration cause).message, []⟩
  | noParticipant => ⟨"at least one --participant is required", []⟩

/-- The value that follows an option, and the arguments after it. -/
def optionValue (option : String) : List String → Except OptionError (String × List String)
  | [] => .error (.missingValue option)
  | value :: rest => .ok (value, rest)

/-- Read a natural number below a limit as the value of an option. -/
def countValue (option : String) (limit : Nat) (value : String) : Except OptionError Nat :=
  (Text.parseNat limit value.toList).mapError (.badCount option)

/-- Read the scalars between commas. -/
def scalarList (value : String) : Except Single.ParseError (List Single) :=
  (Text.splitAll ',' value.toList).mapM fun part => Single.parse (String.ofList (Text.trim part))

end SortLast
