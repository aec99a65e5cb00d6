import TeenyC.Main
import TeenyC.Proofs.CText.Shape
import TeenyC.Proofs.CText.Names
import TeenyC.Proofs.Parsing.EndOfInput
import TeenyC.Proofs.Parsing.FirstFault
import TeenyC.Proofs.Parsing.Lookahead
import TeenyC.Proofs.Parsing.Layout
import TeenyC.Proofs.CText.Printing
import TeenyC.Proofs.CText.Identifier
import TeenyC.Proofs.Parsing.Sequence
import TeenyC.Proofs.CText.Decompiled
import TeenyC.Proofs.Parsing.Noted
import TeenyC.Proofs.Parsing.Ensures
import TeenyC.Proofs.Parsing.Calls
import TeenyC.Proofs.File.Path
import TeenyC.Proofs.File.Saving
import TeenyC.Proofs.CommandLine.Run
import TeenyC.Proofs.Token.Position
import TeenyC.Proofs.Token.ByteReading
import TeenyC.Proofs.Token.Printed
import TeenyC.Proofs.Token.Ending
import TeenyC.Proofs.Parsing.Passing
import TeenyC.Proofs.Parsing.LineEnding
import TeenyC.Proofs.CommandLine.Listing
import TeenyC.Proofs.Parsing.Reports
import TeenyC.Proofs.Parsing.Message
import TeenyC.Proofs.Artifact.Handover
import TeenyC.Proofs.Token.Raised
import TeenyC.Proofs.Token.Progress
