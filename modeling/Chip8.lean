import Chip8.Engine.Script
import Chip8.Instruction.Mnemonic
import Chip8.Interpreter.Events
import Chip8.Main
import Chip8.Proofs.Interpreter.Performing
import Chip8.Proofs.Instruction.OpcodeTable
import Chip8.Proofs.Interpreter.Stepping
import Chip8.Proofs.Interpreter.Bounds
import Chip8.Proofs.Interpreter.Faults
import Chip8.Proofs.Interpreter.FaultTable
import Chip8.Proofs.Frame.Sprite
import Chip8.Proofs.Interpreter.Drawing
import Chip8.Proofs.Interpreter.Replay
import Chip8.Proofs.Interpreter.Loading
import Chip8.Proofs.Interpreter.FrameTaking
import Chip8.Proofs.Engine.Beeps
import Chip8.Proofs.Engine.Pictures
import Chip8.Proofs.Engine.Reports
import Chip8.Proofs.Engine.Rates
import Chip8.Proofs.Engine.Commands
import Chip8.Proofs.Interpreter.Keys
import Chip8.Proofs.Engine.Keys
import Chip8.Proofs.Headless.VirtualTime
import Chip8.Proofs.Pacer.Backlog
import Chip8.Proofs.Interpreter.Interleaving
import Chip8.Proofs.Engine.Timing
import Chip8.Proofs.Interpreter.Resetting
import Chip8.Proofs.Keypad.Writers
import Chip8.Proofs.Interpreter.KeyWait
import Chip8.Proofs.Interpreter.Calls
import Chip8.Proofs.Pacer.Drift
import Chip8.Proofs.Interpreter.Footprint
import Chip8.Proofs.Interpreter.ControlFlow
import Chip8.Proofs.Interpreter.Deeds
import Chip8.Proofs.Interpreter.RandomStream
import Chip8.Proofs.Interpreter.TimerHistory
import Chip8.Proofs.Interpreter.FlagArithmetic
import Chip8.Proofs.Interpreter.Transfers
import Chip8.Proofs.Interpreter.Redrawing
import Chip8.Proofs.Engine.Idling
import Chip8.Proofs.Frame.Torus
import Chip8.Proofs.Frame.Reading
import Chip8.Proofs.Machine.Stacking
