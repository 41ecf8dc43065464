import Smalltalk.Main
import Smalltalk.Proofs.Activations
import Smalltalk.Proofs.Calls
import Smalltalk.Proofs.ClassNames
import Smalltalk.Proofs.CodePositions
import Smalltalk.Proofs.Faithful
import Smalltalk.Proofs.FaultPlaces
import Smalltalk.Proofs.FloorDivision
import Smalltalk.Proofs.Hashing
import Smalltalk.Proofs.Highlighting
import Smalltalk.Proofs.Layout
import Smalltalk.Proofs.Pieces
import Smalltalk.Proofs.QuotedStrings
import Smalltalk.Tree.Nodes
