import HexDuel.Main
import HexDuel.Proofs.Stray
import HexDuel.Proofs.Cells
import HexDuel.Proofs.Numbers
import HexDuel.Proofs.Refusal
import HexDuel.Proofs.Rerun
import HexDuel.Proofs.Suspension
import HexDuel.Proofs.Holdings
import HexDuel.Proofs.Uniqueness
import HexDuel.Proofs.Settling
import HexDuel.Proofs.Modifiers
import HexDuel.Proofs.Grants
import HexDuel.Proofs.Victory
import HexDuel.Proofs.Turns
import HexDuel.Proofs.Destruction
import HexDuel.Proofs.Canon
import HexDuel.Proofs.Impartial
import HexDuel.Proofs.Receipts
import HexDuel.Proofs.Bounds
import HexDuel.Proofs.Solvency
import HexDuel.Proofs.HandLimit
import HexDuel.Proofs.Economy
import HexDuel.Proofs.Rounds
import HexDuel.Proofs.Playback
import HexDuel.Proofs.Paths
import HexDuel.Proofs.Treks
import HexDuel.Proofs.Spelling
import HexDuel.Proofs.Codes
import HexDuel.Proofs.Phrasing
import HexDuel.Proofs.Speech
import HexDuel.Proofs.Literals
import HexDuel.Proofs.Labels
import HexDuel.Proofs.Storage
import HexDuel.Proofs.Transcripts
import HexDuel.Proofs.Creeds
import HexDuel.Proofs.Upholding
import HexDuel.Proofs.UpholdingTargets
import HexDuel.Proofs.UpholdingEvents
import HexDuel.Proofs.UpholdingCommands
import HexDuel.Proofs.Observance
import HexDuel.Proofs.Restored
import HexDuel.Proofs.Cascades
import HexDuel.Proofs.Ways
import HexDuel.Proofs.Ripples
import HexDuel.Proofs.Aftermath
import HexDuel.Proofs.Assault
import HexDuel.Proofs.Encounters
import HexDuel.Proofs.Untriggered
import HexDuel.Proofs.Exchange
import HexDuel.Proofs.Reckoning
import HexDuel.Proofs.Hearing
import HexDuel.Proofs.Legality
import HexDuel.Proofs.Policy
import HexDuel.Proofs.Offers
import HexDuel.Proofs.Draws
import HexDuel.Proofs.Opening
import HexDuel.Proofs.Coordinates
import HexDuel.Proofs.DeckLists
import HexDuel.Proofs.Removal
import HexDuel.Proofs.Expiry
import HexDuel.Proofs.Perusal
import HexDuel.Proofs.Distinct
import HexDuel.Proofs.Shuffling
import HexDuel.Proofs.Readings
import HexDuel.Proofs.Matching
