import Formulary.Formula
import Formulary.Expr.Render
import Formulary.Stored
import Formulary.Proofs.FirstError
import Formulary.Proofs.Rereading
import Formulary.Proofs.WiderBounds
import Formulary.Proofs.Evaluation.Local
import Formulary.Proofs.Evaluation.Linear
import Formulary.Proofs.Evaluation.Finite
import Formulary.Proofs.Calls
import Formulary.Proofs.TokenEnd
import Formulary.Proofs.MovedTokens
import Formulary.Proofs.Blanks
import Formulary.Proofs.LetterCase
import Formulary.Proofs.Trace.History
import Formulary.Proofs.Lossless
import Formulary.Proofs.Trace.Holder
import Formulary.Proofs.Trace.ReadBack
import Formulary.Proofs.StoredSettings
import Formulary.Proofs.Evaluation.Difference
import Formulary.Proofs.Evaluation.Visits
import Formulary.Proofs.VariableName
import Formulary.Proofs.Rounding
import Formulary.Proofs.Literal.Denoted
import Formulary.Proofs.Literal.Token
import Formulary.Proofs.Evaluation.Independent
import Formulary.Proofs.Evaluation.Gapless
import Formulary.Proofs.Evaluation.Power
