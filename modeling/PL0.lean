import PL0.Main
import PL0.Proofs.Command.Output
import PL0.Proofs.JavaScript.Binding
import PL0.Proofs.JavaScript.Capture
import PL0.Proofs.JavaScript.Guard
import PL0.Proofs.JavaScript.Indentation
import PL0.Proofs.JavaScript.Misfit
import PL0.Proofs.JavaScript.ReadBack
import PL0.Proofs.JavaScript.Reach
import PL0.Proofs.JavaScript.Unfused
import PL0.Proofs.JavaScript.Walk
import PL0.Proofs.Outline.Faithful
import PL0.Proofs.Reading.Alike
import PL0.Proofs.Translation
import PL0.Proofs.Yard.Account
import PL0.Proofs.Yard.Balance
import PL0.Proofs.Yard.Mismatch
import PL0.Proofs.Reading.Parentheses
import PL0.Proofs.Scan.Refusal
import PL0.Proofs.Yard.Answer
import PL0.Proofs.Scan.Respelling
import PL0.Proofs.Outline.Remarks
import PL0.Proofs.Reading.Descent
import PL0.Proofs.Reading.Waiting
