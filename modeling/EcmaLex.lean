import EcmaLex.Config.Toml
import EcmaLex.Library.Running
import EcmaLex.TokenStream
import EcmaLex.Proofs.Source.Simulation
import EcmaLex.Proofs.Source.Tape
import EcmaLex.Proofs.Text.Utf8Pieces
import EcmaLex.Proofs.Source.WindowText
import EcmaLex.Proofs.Source.BufferTape
import EcmaLex.Proofs.Reading.Operators
import EcmaLex.Proofs.Grammar.Escapes
import EcmaLex.Proofs.Reading.Escapes
import EcmaLex.Proofs.Reading.Strings
import EcmaLex.Proofs.Reading.Words
import EcmaLex.Proofs.Grammar.Trivia
import EcmaLex.Proofs.Reading.Comments
import EcmaLex.Proofs.Grammar.Tiles
import EcmaLex.Proofs.Reading.Scan
import EcmaLex.Proofs.Reading.Stream
import EcmaLex.Proofs.Refills
import EcmaLex.Proofs.Tiling
import EcmaLex.Proofs.LineBreaks
import EcmaLex.Proofs.Grammar.Cut
import EcmaLex.Proofs.Grammar.LeadingToken
import EcmaLex.Proofs.Text.CharClasses
import EcmaLex.Proofs.Grammar.Followers
import EcmaLex.Proofs.Grammar.Modes
import EcmaLex.Proofs.Rescanning
import EcmaLex.Proofs.Resuming
import EcmaLex.Proofs.StrictCode
import EcmaLex.Proofs.Source.Windows
import EcmaLex.Proofs.Source.Streams
import EcmaLex.Proofs.Source.BrokenInput
import EcmaLex.Proofs.Failures
import EcmaLex.Proofs.Source.ReadHistory
import EcmaLex.Proofs.LifeCycle
import EcmaLex.Proofs.Progress
import EcmaLex.Proofs.Text.Utf8Sequences
import EcmaLex.Proofs.Source.WindowRuns
import EcmaLex.Proofs.Decoding
import EcmaLex.Proofs.Text.Utf16Units
import EcmaLex.Proofs.Source.HandedOut
import EcmaLex.Proofs.Grammar.StringPieces
import EcmaLex.Proofs.Reading.StringBodies
import EcmaLex.Proofs.StringLiterals
import EcmaLex.Proofs.Grammar.WordNumbers
import EcmaLex.Proofs.WordRecovery
import EcmaLex.Proofs.Reading.Answers
import EcmaLex.Proofs.StringExtents
import EcmaLex.Proofs.Grammar.WordPieces
import EcmaLex.Proofs.Words
import EcmaLex.Proofs.Grammar.NumericLiterals
import EcmaLex.Proofs.Reading.Numbers
import EcmaLex.Proofs.NumericLiterals
import EcmaLex.Proofs.Number.Rounding
import EcmaLex.Proofs.Number.Decimals
import EcmaLex.Proofs.NumericValues
import EcmaLex.Proofs.Grammar.Punctuators
import EcmaLex.Proofs.Punctuators
import EcmaLex.Proofs.BlockComments
import EcmaLex.Proofs.Grammar.TokenScanners
import EcmaLex.Proofs.Recovery
import EcmaLex.Proofs.Spellings
import EcmaLex.Proofs.Source.Mended
import EcmaLex.Proofs.Retries
import EcmaLex.Proofs.Source.HeldText
import EcmaLex.Proofs.Pushback
import EcmaLex.Proofs.Source.ReadHead
import EcmaLex.Proofs.WindowBounds
import EcmaLex.Proofs.WindowGrowth
import EcmaLex.Proofs.Text.TrackedLines
import EcmaLex.Proofs.LineTracking
import EcmaLex.Proofs.CurrentLine
import EcmaLex.Proofs.ReadRequests
import EcmaLex.Proofs.NumberPhases
import EcmaLex.Proofs.Reading.StringPhases
import EcmaLex.Proofs.StringStates
import EcmaLex.Proofs.Source.Recording
import EcmaLex.Proofs.GivingBack
