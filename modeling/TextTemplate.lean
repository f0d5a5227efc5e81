import TextTemplate.Main
import TextTemplate.Proofs.CommandLine.Dump
import TextTemplate.Proofs.CommandLine.Fields
import TextTemplate.Proofs.CommandLine.Run
import TextTemplate.Proofs.Diagnostic
import TextTemplate.Proofs.Rendering.Names
import TextTemplate.Proofs.Rendering.Scope
import TextTemplate.Proofs.Rendering.Unrolled
import TextTemplate.Proofs.Session
import TextTemplate.Proofs.Template.Closing
import TextTemplate.Proofs.Template.Cuts
import TextTemplate.Proofs.Template.Local
import TextTemplate.Proofs.Text.Slice
import TextTemplate.Proofs.Token.Grammar
import TextTemplate.Proofs.Token.Lookahead
import TextTemplate.Proofs.Token.Printing
import TextTemplate.Proofs.Value.Scientific
