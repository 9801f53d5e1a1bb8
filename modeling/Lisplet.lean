import Lisplet.Main
import Lisplet.Proofs.FailStop
import Lisplet.Proofs.History
import Lisplet.Proofs.Meaning
import Lisplet.Proofs.Modes
import Lisplet.Proofs.Numbers
import Lisplet.Proofs.Operands
import Lisplet.Proofs.Recursion
import Lisplet.Proofs.Balance
import Lisplet.Proofs.Reported
import Lisplet.Proofs.Sequel
import Lisplet.Proofs.Sugar
import Lisplet.Proofs.Trail
import Lisplet.Store.Describe
import Lisplet.Proofs.IntegerLiteral
import Lisplet.Proofs.StringLiteral
import Lisplet.Proofs.Positional
import Lisplet.Proofs.Definition
import Lisplet.Proofs.MapLiteral
import Lisplet.Proofs.Spread
import Lisplet.Proofs.Cutting
import Lisplet.Proofs.VarNames
