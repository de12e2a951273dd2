import Argumentation.CommandLine.Files
import Argumentation.Main
import Argumentation.Proofs.Session.Stability
import Argumentation.Proofs.Solver.Agreement
import Argumentation.Sat.Search.Models
import Argumentation.Sat.Solver
import Argumentation.Solver.FromScratch
import Argumentation.Proofs.Session.Independence
import Argumentation.Proofs.Session.Activity
import Argumentation.Proofs.Solver.Refusals
import Argumentation.Proofs.Solver.Activity
import Argumentation.Proofs.Solver.Compilation
import Argumentation.Proofs.Format.Reading
import Argumentation.Proofs.CommandLine.Solve
import Argumentation.Proofs.Session.Rounds
import Argumentation.Proofs.Session.Search
import Argumentation.Proofs.Solver.Queries
import Argumentation.Proofs.Format.Tgf.Updates
import Argumentation.Proofs.Format.Tgf.Instances
import Argumentation.Proofs.Format.Apx.Updates
import Argumentation.Proofs.Format.Apx.Instances
import Argumentation.Proofs.Framework.Growth
import Argumentation.Proofs.Format.Apx.Terminators
import Argumentation.Proofs.Format.Apx.Rejections
import Argumentation.Proofs.Format.Apx.Addressing
import Argumentation.Proofs.Program.Readability
import Argumentation.Proofs.Format.Writing
import Argumentation.Proofs.Sat.Calls
import Argumentation.Proofs.Sat.Opposites
import Argumentation.Proofs.Solver.TimeLimits
import Argumentation.Proofs.Session.Usage
import Argumentation.Proofs.Session.Variables
import Argumentation.Proofs.Session.Selectors
