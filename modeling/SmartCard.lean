import SmartCard.Card.Fixed
import SmartCard.CardState.Trial
import SmartCard.Document.CardState
import SmartCard.Document.Shape
import SmartCard.Pace.Basic
import SmartCard.Pace.Rehearsal
import SmartCard.Proofs.Command.Layout
import SmartCard.Proofs.Layout.Meaning
import SmartCard.Proofs.Pace.Announcement
import SmartCard.Proofs.Pace.Erasure
import SmartCard.Proofs.Pace.Guessing
import SmartCard.Proofs.Pace.Order
import SmartCard.Proofs.Tlv.Canonical
import SmartCard.Protocol.Echo
import SmartCard.Protocol.Script
import SmartCard.StatusWord.Meaning
import SmartCard.Proofs.Tlv.Header
import SmartCard.Proofs.Tlv.Grammar
import SmartCard.Proofs.Context.Replay
import SmartCard.Proofs.Protocol.Calls
import SmartCard.Proofs.Shape.Precedence
import SmartCard.Proofs.Protocol.Dispatch
import SmartCard.Proofs.Protocol.Resumption
import SmartCard.Proofs.Protocol.Deltas
import SmartCard.Proofs.Card.Offering
import SmartCard.Proofs.Pace.Resting
import SmartCard.Proofs.Pace.Objection
import SmartCard.Proofs.Pace.Shapes
import SmartCard.Proofs.Pace.Selecting
import SmartCard.Proofs.Pace.Sequence
import SmartCard.Proofs.Pace.Conclusion
import SmartCard.Proofs.Layout.Descent
import SmartCard.Proofs.Layout.Grafting
import SmartCard.Proofs.Layout.Likeness
import SmartCard.Proofs.Document.Lawful
import SmartCard.Proofs.Document.Exchange
import SmartCard.Proofs.Command.Lineage
import SmartCard.Proofs.Context.Succession
import SmartCard.Proofs.Pace.Secret
import SmartCard.Proofs.Pace.Noninterference
import SmartCard.Proofs.Pace.Numbering
import SmartCard.Proofs.Pace.Renewal
import SmartCard.Proofs.Layout.Rearrangement
import SmartCard.Proofs.Layout.Passing
import SmartCard.Proofs.Layout.Comparison
import SmartCard.Proofs.Layout.Transposition
import SmartCard.Proofs.Layout.Omission
import SmartCard.Proofs.Pace.Undisturbed
import SmartCard.Proofs.Tlv.Nesting
import SmartCard.Proofs.Shape.Predecessors
import SmartCard.Proofs.Shape.Opposites
import SmartCard.Proofs.Pace.Reading
import SmartCard.Proofs.Command.Building
import SmartCard.Proofs.Tlv.Buffer
import SmartCard.Proofs.Tlv.Tag
