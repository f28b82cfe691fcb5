import LatexTokens.Document.Typing
import LatexTokens.Sample
import LatexTokens.Token.Outline
import LatexTokens.Proofs.Balance.Faults
import LatexTokens.Proofs.Balance.Finding
import LatexTokens.Proofs.Comment.Region
import LatexTokens.Proofs.Document.Boundaries
import LatexTokens.Proofs.Document.Entries
import LatexTokens.Proofs.Document.Joining
import LatexTokens.Proofs.Document.Lookahead
import LatexTokens.Proofs.Document.Path
import LatexTokens.Proofs.Document.Remainder
import LatexTokens.Proofs.Document.Source
import LatexTokens.Proofs.Document.Splicing
import LatexTokens.Proofs.Fault.Pointing
import LatexTokens.Proofs.Offset.Session
import LatexTokens.Proofs.Sample.Reading
import LatexTokens.Proofs.Setting.Uncommented
import LatexTokens.Proofs.Token.Texts
