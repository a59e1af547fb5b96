import Lox.Program.Log
import Lox.Program.Session
import Lox.Proofs.Program.Accepts
import Lox.Proofs.Program.Append
import Lox.Proofs.Program.Blind
import Lox.Proofs.Program.Dump
import Lox.Proofs.Program.Expand
import Lox.Proofs.Program.Interleaving
import Lox.Proofs.Program.Levels
import Lox.Proofs.Program.OneAhead
import Lox.Proofs.Program.Segments
import Lox.Proofs.Reading.Prompt
import Lox.Proofs.Rule.Beyond
import Lox.Proofs.Token.LeadingZero
import Lox.Proofs.Token.Lines
import Lox.Proofs.Token.Tiling
import Lox.Proofs.Tree.Printed
import Lox.Proofs.Visitor
import Lox.Tree.Fitted
