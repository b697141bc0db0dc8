import ImpSyntax.FrontEnd
import ImpSyntax.Proofs.Listing.RoundTrip
import ImpSyntax.Proofs.Source.RoundTrip
import ImpSyntax.Proofs.TokenStream.ViablePrefix
import ImpSyntax.Source.OfProgram
import ImpSyntax.Tree.Builder
import ImpSyntax.Proofs.Source.GapText
import ImpSyntax.Proofs.Source.Partition
import ImpSyntax.Proofs.Source.Separators
import ImpSyntax.Proofs.Listing.Payload
import ImpSyntax.Proofs.Grammar.Leaves
import ImpSyntax.Proofs.Source.Dump
import ImpSyntax.Proofs.Source.Session
import ImpSyntax.Proofs.Source.FaultText
import ImpSyntax.Proofs.Source.Lines
import ImpSyntax.Proofs.Listing.Reread
import ImpSyntax.Proofs.Listing.Append
import ImpSyntax.Proofs.TokenStream.Session
import ImpSyntax.Proofs.TokenStream.Shape
import ImpSyntax.Proofs.TokenStream.Balance
import ImpSyntax.Proofs.TokenStream.Recast
import ImpSyntax.Proofs.Tree.ExprDump
import ImpSyntax.Proofs.Grammar.Loop
import ImpSyntax.Proofs.TokenStream.Lookahead
import ImpSyntax.Proofs.Listing.Closing
