import PenStream.Canvas.Access
import PenStream.Canvas.Bytes
import PenStream.Geometry.Ellipse.Tracer
import PenStream.Geometry.Line.Tracer
import PenStream.Main
import PenStream.Proofs.Canvas.Addressing
import PenStream.Proofs.Command.Record
import PenStream.Proofs.Component
import PenStream.Proofs.Drawing.Cropping
import PenStream.Proofs.Drawing.Enclosure
import PenStream.Proofs.Drawing.OffCanvas
import PenStream.Proofs.Drawing.Outline
import PenStream.Proofs.Drawing.Painted
import PenStream.Proofs.Drawing.Paletted
import PenStream.Proofs.Drawing.Repeated
import PenStream.Proofs.FloodFill.Complete
import PenStream.Proofs.FloodFill.Sound
import PenStream.Proofs.FloodFill.Turns
import PenStream.Proofs.FloodFill.Waiting
import PenStream.Proofs.FloodFill.Watertight
import PenStream.Proofs.Geometry.Accuracy
import PenStream.Proofs.Geometry.Across
import PenStream.Proofs.Geometry.Arc
import PenStream.Proofs.Geometry.Circle
import PenStream.Proofs.Geometry.Dda
import PenStream.Proofs.Geometry.Deviation
import PenStream.Proofs.Geometry.Line
import PenStream.Proofs.Geometry.Quadrant
import PenStream.Proofs.Geometry.Staircase
import PenStream.Proofs.Json.Written
import PenStream.Proofs.Numeral
import PenStream.Proofs.Numeral.Value
import PenStream.Proofs.Playback.Animated
import PenStream.Proofs.Playback.Currency
import PenStream.Proofs.Playback.Driven
import PenStream.Proofs.Playback.Evolution
import PenStream.Proofs.Playback.Refinement
import PenStream.Proofs.Playback.Session
import PenStream.Proofs.Playback.Tolerance
import PenStream.Proofs.Stream.Alike
import PenStream.Proofs.Stream.Chunks
import PenStream.Proofs.Stream.Factors
import PenStream.Proofs.Stream.Introducers
import PenStream.Proofs.Stream.Layout
import PenStream.Proofs.Stream.Path
import PenStream.Proofs.Stream.Prepared
import PenStream.Proofs.Stream.Replay
import PenStream.Proofs.Stream.Reset
import PenStream.Proofs.Stream.Segments
import PenStream.Proofs.Stream.Spelling
import PenStream.Proofs.Stream.Unfenced
import PenStream.Proofs.Stream.Windows
import PenStream.Proofs.Stream.Written
import PenStream.Proofs.Strict.Canvas
import PenStream.Proofs.Strict.Ellipse
import PenStream.Proofs.Strict.EvenSteps
import PenStream.Proofs.Strict.Execute
import PenStream.Proofs.Strict.FloodFill
import PenStream.Proofs.Strict.Line
import PenStream.Proofs.Strict.Playback
import PenStream.Proofs.Strict.Rectangle
import PenStream.Proofs.Strict.Runs
import PenStream.Proofs.Strict.Tracer
