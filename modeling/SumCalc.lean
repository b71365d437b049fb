import SumCalc.Main
import SumCalc.Proofs.Reading
import SumCalc.Proofs.Building
import SumCalc.Proofs.Leaves
import SumCalc.Proofs.Outcome
import SumCalc.Proofs.Piecewise
import SumCalc.Proofs.Printing
import SumCalc.Proofs.RoundTrip
import SumCalc.Proofs.Viability
import SumCalc.Proofs.Histories
import SumCalc.Proofs.Walks
import SumCalc.Proofs.Origins
import SumCalc.Proofs.Lexemes
import SumCalc.Proofs.Denotation
import SumCalc.Proofs.Splicing
import SumCalc.Proofs.Flags
import SumCalc.Proofs.Decoding
import SumCalc.Proofs.Records
import SumCalc.Proofs.Lines
import SumCalc.Proofs.Respacing
import SumCalc.Proofs.SourceFiles
import SumCalc.Proofs.Obstacles
import SumCalc.Proofs.Wrapping
import SumCalc.Proofs.CommandLines
import SumCalc.Proofs.Inputs
import SumCalc.Proofs.ExitCodes
import SumCalc.Proofs.Parentheses
import SumCalc.Proofs.Unambiguous
import SumCalc.Proofs.Spacing
import SumCalc.Proofs.Moments
import SumCalc.Proofs.PartialSums
import SumCalc.Proofs.Expectations
import SumCalc.Proofs.Carets
import SumCalc.Proofs.Transcripts
import SumCalc.Proofs.Renderings
import SumCalc.Proofs.Calls
import SumCalc.Proofs.TwosComplement
