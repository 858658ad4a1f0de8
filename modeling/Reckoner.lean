import Reckoner.Main
import Reckoner.Source.Chain
import Reckoner.Proofs.Writable
import Reckoner.Proofs.Specialization
import Reckoner.Proofs.Run
import Reckoner.Proofs.Residual
import Reckoner.Proofs.Sentence
import Reckoner.Proofs.Preparation
import Reckoner.Proofs.Scanning
import Reckoner.Proofs.Phrasing
import Reckoner.Proofs.Reading
import Reckoner.Proofs.RoundTrip
import Reckoner.Proofs.Printing
import Reckoner.Proofs.Stages
import Reckoner.Proofs.Unfolding
import Reckoner.Proofs.Evaluated
import Reckoner.Proofs.Spelling
import Reckoner.Proofs.Transcript
import Reckoner.Proofs.Restoration
import Reckoner.Proofs.Lexing
import Reckoner.Proofs.Recovery
import Reckoner.Proofs.Acceptance
import Reckoner.Proofs.Engine
import Reckoner.Proofs.Session
import Reckoner.Proofs.Faults
import Reckoner.Proofs.Channels
import Reckoner.Proofs.Guard
import Reckoner.Proofs.Retention
import Reckoner.Proofs.NormalForm
import Reckoner.Proofs.Laziness
import Reckoner.Proofs.Conversation
import Reckoner.Proofs.Cycle
import Reckoner.Proofs.Names
import Reckoner.Proofs.Rebinding
import Reckoner.Proofs.Rational
import Reckoner.Proofs.Liveness
import Reckoner.Proofs.Readback
import Reckoner.Proofs.Compilation
import Reckoner.Proofs.Memoization
import Reckoner.Proofs.Chain
import Reckoner.Proofs.Comments
import Reckoner.Proofs.ActiveNames
import Reckoner.Proofs.Termination
