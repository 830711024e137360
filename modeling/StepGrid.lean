import StepGrid.Main
import StepGrid.Score.Stream
import StepGrid.Proofs.PianoRoll
import StepGrid.Proofs.MidiRoundTrip
import StepGrid.Proofs.StreamAnswers
import StepGrid.Proofs.MidiOrder
import StepGrid.Proofs.GridRow
import StepGrid.Proofs.GridConcatenation
import StepGrid.Proofs.GridRefinement
import StepGrid.Proofs.GridNormalForm
import StepGrid.Proofs.JsonLexemes
import StepGrid.Proofs.TextLines
import StepGrid.Proofs.JsonLines
import StepGrid.Proofs.SourceBlock
import StepGrid.Proofs.MidiWritable
import StepGrid.Proofs.MidiReader
import StepGrid.Proofs.MidiDecoding
import StepGrid.Proofs.MidiTempo
import StepGrid.Proofs.SourceDelimiters
import StepGrid.Proofs.TextPlaces
import StepGrid.Proofs.JsonPlaces
import StepGrid.Proofs.SourcePlaces
import StepGrid.Proofs.FolderFiles
import StepGrid.Proofs.CommandFaults
import StepGrid.Proofs.CommandRuns
import StepGrid.Proofs.CommandGroups
import StepGrid.Proofs.PitchNames
import StepGrid.Proofs.GridVerdicts
import StepGrid.Proofs.GridChords
import StepGrid.Proofs.ScoreDoubling
import StepGrid.Proofs.MidiVerdicts
import StepGrid.Proofs.SettingsLayers
import StepGrid.Proofs.ScoreRecords
import StepGrid.Proofs.ScoreShape
import StepGrid.Proofs.FrontmatterEntries
import StepGrid.Proofs.MidiWords
