import NetworkAnalyzer.Bench.Board
import NetworkAnalyzer.Bench.Host
import NetworkAnalyzer.Bench.Rig
import NetworkAnalyzer.Bench.Script
import NetworkAnalyzer.Bench.Standards
import NetworkAnalyzer.Bench.Threads
import NetworkAnalyzer.Bench.Tone
import NetworkAnalyzer.Bench.Trial
import NetworkAnalyzer.Board
import NetworkAnalyzer.Calibration.Basic
import NetworkAnalyzer.Calibration.Collection
import NetworkAnalyzer.Calibration.Lookup
import NetworkAnalyzer.Calibration.Record
import NetworkAnalyzer.Calibration.Solution
import NetworkAnalyzer.Channel
import NetworkAnalyzer.Clock
import NetworkAnalyzer.Control
import NetworkAnalyzer.Correction
import NetworkAnalyzer.Decimal.Binary
import NetworkAnalyzer.Decimal.Fixed
import NetworkAnalyzer.Decimal.Reading
import NetworkAnalyzer.Decimal.Shortest
import NetworkAnalyzer.EventBus
import NetworkAnalyzer.Fault
import NetworkAnalyzer.Flags
import NetworkAnalyzer.FrequencyPlan
import NetworkAnalyzer.Instrument
import NetworkAnalyzer.MeasurementLoop
import NetworkAnalyzer.Names
import NetworkAnalyzer.Parameters
import NetworkAnalyzer.Phasor
import NetworkAnalyzer.Proofs.Calibration.ErrorModel
import NetworkAnalyzer.Proofs.Calibration.Founded
import NetworkAnalyzer.Proofs.Calibration.Ledger
import NetworkAnalyzer.Proofs.Calibration.Lookups
import NetworkAnalyzer.Proofs.Calibration.Measuring
import NetworkAnalyzer.Proofs.Calibration.NeutralTerms
import NetworkAnalyzer.Proofs.Calibration.Provenance
import NetworkAnalyzer.Proofs.Calibration.Readings
import NetworkAnalyzer.Proofs.Calibration.RecordBytes
import NetworkAnalyzer.Proofs.Calibration.Solving
import NetworkAnalyzer.Proofs.Calibration.Storing
import NetworkAnalyzer.Proofs.ExactPhasor
import NetworkAnalyzer.Proofs.Instrument.PlanAgreement
import NetworkAnalyzer.Proofs.Loop.Calls
import NetworkAnalyzer.Proofs.Loop.Freshness
import NetworkAnalyzer.Proofs.Loop.Interludes
import NetworkAnalyzer.Proofs.Readout.History
import NetworkAnalyzer.Proofs.Readout.Interleaved
import NetworkAnalyzer.Proofs.Readout.OnePass
import NetworkAnalyzer.Proofs.Readout.Tokens
import NetworkAnalyzer.Proofs.Receiver.Counting
import NetworkAnalyzer.Proofs.Runs
import NetworkAnalyzer.Proofs.Schedules
import NetworkAnalyzer.Proofs.SinglePrecision
import NetworkAnalyzer.Proofs.Sweep.Call
import NetworkAnalyzer.Proofs.Sweep.Point
import NetworkAnalyzer.Proofs.Sweep.Settled
import NetworkAnalyzer.Proofs.Sweep.Slices
import NetworkAnalyzer.Proofs.Wire.Readers
import NetworkAnalyzer.Readout.Buffers
import NetworkAnalyzer.Readout.Dump
import NetworkAnalyzer.Receiver.Accumulator
import NetworkAnalyzer.Receiver.Capture
import NetworkAnalyzer.Scalar
import NetworkAnalyzer.Settings.Basic
import NetworkAnalyzer.Settings.Json
import NetworkAnalyzer.Settings.Leaf
import NetworkAnalyzer.Settings.Path
import NetworkAnalyzer.Shared
import NetworkAnalyzer.Spectrum.Fourier
import NetworkAnalyzer.Spectrum.Kaiser
import NetworkAnalyzer.Spectrum.TimeDomain
import NetworkAnalyzer.Sweep.Pass
import NetworkAnalyzer.Sweep.Progress
import NetworkAnalyzer.Sweep.Session
import NetworkAnalyzer.TaskSlots
import NetworkAnalyzer.Trace.Processing
import NetworkAnalyzer.Trace.Smoothing
import NetworkAnalyzer.Wire.Hex
import NetworkAnalyzer.Wire.Varint
import NetworkAnalyzer.Proofs.Frequencies
import NetworkAnalyzer.Proofs.Sweep.SessionPoints
import NetworkAnalyzer.Proofs.Bus.Delivery
import NetworkAnalyzer.Proofs.Control.Pausing
import NetworkAnalyzer.Proofs.Loop.Attempts
import NetworkAnalyzer.Proofs.Loop.OwedPass
import NetworkAnalyzer.Proofs.Loop.Reports
import NetworkAnalyzer.Proofs.Tasks.Occupancy
import NetworkAnalyzer.Proofs.Control.Draining
import NetworkAnalyzer.Proofs.Calibration.Standing
import NetworkAnalyzer.Proofs.Loop.Starts
import NetworkAnalyzer.Proofs.SinglePrecision.Quotients
import NetworkAnalyzer.Proofs.Calibration.Brackets
import NetworkAnalyzer.Proofs.Calibration.LookupArithmetic
import NetworkAnalyzer.Proofs.Calibration.AffineTerms
import NetworkAnalyzer.Proofs.Calibration.BandLines
import NetworkAnalyzer.Proofs.Calibration.StoredPoints
import NetworkAnalyzer.Proofs.Frequencies.Checked
import NetworkAnalyzer.Proofs.Frequencies.Rounding
import NetworkAnalyzer.Proofs.Calibration.SolvingOrder
import NetworkAnalyzer.Proofs.Calibration.DecisionTable
import NetworkAnalyzer.Proofs.Calibration.PassesMade
import NetworkAnalyzer.Proofs.Spectrum.InPlace
import NetworkAnalyzer.Proofs.Spectrum.ExactTransform
import NetworkAnalyzer.Proofs.Spectrum.Filling
import NetworkAnalyzer.Proofs.Spectrum.Reuse
import NetworkAnalyzer.Proofs.Spectrum.Windows
import NetworkAnalyzer.Proofs.Spectrum.Divisions
import NetworkAnalyzer.Proofs.Spectrum.Shares
import NetworkAnalyzer.Proofs.Spectrum.Bandpass
import NetworkAnalyzer.Proofs.Spectrum.Lowpass
import NetworkAnalyzer.Proofs.Spectrum.StepResponse
import NetworkAnalyzer.Proofs.Trace.Averaging
import NetworkAnalyzer.Proofs.Readout.DumpStream
import NetworkAnalyzer.Proofs.Sweep.Signals
import NetworkAnalyzer.Proofs.Sweep.Screen
import NetworkAnalyzer.Proofs.Sweep.Light
import NetworkAnalyzer.Proofs.Sweep.Gathering
import NetworkAnalyzer.Proofs.Sweep.ReflectionDelay
import NetworkAnalyzer.Proofs.Sweep.LastCycle
import NetworkAnalyzer.Proofs.Sweep.Latency
import NetworkAnalyzer.Proofs.Loop.NothingShown
import NetworkAnalyzer.Proofs.Correction.Impedance
import NetworkAnalyzer.Proofs.Instrument.ScanMask
import NetworkAnalyzer.Proofs.Settings.ValueTexts
import NetworkAnalyzer.Proofs.Settings.SetAndGet
import NetworkAnalyzer.Proofs.Waits.Course
import NetworkAnalyzer.Proofs.Waits.Operations
