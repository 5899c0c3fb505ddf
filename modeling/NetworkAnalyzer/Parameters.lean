import NetworkAnalyzer.Clock

/-!
# Instrument parameters

Table sizes, bandwidth codes and deadlines of the instrument, each with its unit. A number that
several modules need stands here and is written nowhere else; what one module alone decides, such
as a threshold of its formula, stands with that formula.

The number of points of the traces is a parameter `N` of every type that holds some. `pointsMax` is
its value on the instrument, and what the settings admit.
-/

namespace NetworkAnalyzer.Parameters

def pointsMax : Nat := 401

/-- Fewest points accepted from the settings. -/
def pointsMin : Nat := 11

def sampleRate : Nat := 192000

/-- Intermediate frequency of the receiver in Hz. -/
def intermediateFrequency : Nat := 12000

def bufferPairs : Nat := 48

/-- Words in one codec buffer: reference and sample alternate. -/
def bufferLength : Nat := 2 * bufferPairs

/-- Length of the longest Fourier transform, and of the time domain transform. -/
def transformLength : Nat := 512

/-! ## Bandwidth codes

A code is the number of extra buffers accumulated per point. One buffer spans
4 kHz. -/

def bandwidth4000 : UInt16 := 0
def bandwidth2000 : UInt16 := 1
def bandwidth1000 : UInt16 := 3
def bandwidth333 : UInt16 := 11
def bandwidth100 : UInt16 := 39
def bandwidth30 : UInt16 := 131

/-! ## Settling times and deadlines, in microseconds -/

/-- Settling after the codec input switched channel. -/
def channelChangeDelay : Duration := 100

/-- Extra settling of the first cycle of every point. -/
def sweepStartDelay : Duration := 100

def bandChangeDelay : Duration := 5000

def captureTimeout : Duration := 500000

/-- Deadline for a reader to obtain the buffers. -/
def snapshotTimeout : Duration := 2000000

/-- Deadline for the producer to wait on a reader's copy. -/
def copyReleaseTimeout : Duration := 2000000

/-- Deadline of the first completed pass after start-up. -/
def generationTimeout : Duration := 1000000

/-- Deadline for the measurement task to acknowledge a pause. -/
def pauseTimeout : Duration := 1000000

/-- Time a breakable pass may run before it yields. -/
def timeSlice : Duration := 8000

def idleDelay : Duration := 1000

def progressWidth : UInt16 := 320

/-- Impedance of the calibration load in ohms. -/
def loadImpedance : Float32 := 50

def noSaveSlot : UInt16 := 0xffff

def mailboxDepth : Nat := 4

/-- Attempts to copy both channels from one generation. -/
def copyAttempts : Nat := 3

def traceCount : Nat := 4

def smoothFactorMax : UInt8 := 8

end NetworkAnalyzer.Parameters
