import ChoiceTree.Assignment.BitArray.Bits
import ChoiceTree.Assignment.BitArray.Search
import ChoiceTree.Assignment.Bools
import ChoiceTree.Datum
import ChoiceTree.Main
import ChoiceTree.Proofs.Completeness
import ChoiceTree.Proofs.Edits
import ChoiceTree.Proofs.Effects
import ChoiceTree.Proofs.Extension
import ChoiceTree.Proofs.Locality
import ChoiceTree.Proofs.Outcomes
import ChoiceTree.Proofs.Ownership
import ChoiceTree.Proofs.RoundTrip
import ChoiceTree.Proofs.Soundness
import ChoiceTree.Proofs.WordSearch
import ChoiceTree.Proofs.Reification
import ChoiceTree.Proofs.Results
import ChoiceTree.Proofs.Lookup
import ChoiceTree.Proofs.Rebasing
import ChoiceTree.Proofs.Codec
import ChoiceTree.Proofs.Support
import ChoiceTree.Proofs.Readability
import ChoiceTree.Proofs.Identities
