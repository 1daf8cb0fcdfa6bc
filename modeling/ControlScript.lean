import ControlScript.Main
import ControlScript.Proofs.Agreement
import ControlScript.Proofs.Arithmetic
import ControlScript.Proofs.Damage
import ControlScript.Proofs.Declarations
import ControlScript.Proofs.Delays
import ControlScript.Proofs.Destinations
import ControlScript.Proofs.Durability
import ControlScript.Proofs.Failures
import ControlScript.Proofs.Filtered
import ControlScript.Proofs.Halting
import ControlScript.Proofs.Independence
import ControlScript.Proofs.Leftovers
import ControlScript.Proofs.Lengths
import ControlScript.Proofs.Levels
import ControlScript.Proofs.Meanings
import ControlScript.Proofs.Modes
import ControlScript.Proofs.Numerals
import ControlScript.Proofs.Observers
import ControlScript.Proofs.OrderedMap
import ControlScript.Proofs.Pauses
import ControlScript.Proofs.Registrations
import ControlScript.Proofs.Reindentation
import ControlScript.Proofs.Safety
import ControlScript.Proofs.StraightLine
import ControlScript.Proofs.Surfaces
import ControlScript.Proofs.Walks
import ControlScript.Proofs.WellFramed
