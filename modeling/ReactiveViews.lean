import ReactiveViews.Run
import ReactiveViews.Proofs.LostUpdates
import ReactiveViews.Proofs.Markup.Written
import ReactiveViews.Proofs.Markup.Compiled
import ReactiveViews.Proofs.WakeUps
import ReactiveViews.Proofs.Delivery
import ReactiveViews.Proofs.Tickets
import ReactiveViews.Proofs.History
import ReactiveViews.Proofs.Publishing
import ReactiveViews.Proofs.Replay
import ReactiveViews.Proofs.Lasting
import ReactiveViews.Proofs.Linkage
import ReactiveViews.Proofs.Modes
import ReactiveViews.Proofs.Registrations
import ReactiveViews.Proofs.Scopes
import ReactiveViews.Proofs.Attribution
import ReactiveViews.Proofs.Binds
import ReactiveViews.Proofs.Repeats.Seats
import ReactiveViews.Proofs.Repeats.InStep
import ReactiveViews.Proofs.Dormancy.Coherent
import ReactiveViews.Proofs.Dormancy.Unbinding
import ReactiveViews.Proofs.Dormancy.Binding
import ReactiveViews.Proofs.Dormancy
import ReactiveViews.Proofs.Paths
import ReactiveViews.Proofs.Planted
import ReactiveViews.Proofs.Prototypes
import ReactiveViews.Proofs.Targets
import ReactiveViews.Proofs.Markup.Reading
import ReactiveViews.Proofs.Markup.Placed
import ReactiveViews.Proofs.Markup.Numbered
import ReactiveViews.Proofs.Markup.Spending
import ReactiveViews.Proofs.Markup.Conserved
import ReactiveViews.Proofs.Markup.Stable
import ReactiveViews.Proofs.Markup.Progress
import ReactiveViews.Proofs.Dom.Linked
import ReactiveViews.Proofs.Dom.Stretches
import ReactiveViews.Proofs.Dom.Operations
import ReactiveViews.Proofs.Dom.Placing
import ReactiveViews.Proofs.Ranges.Creation
import ReactiveViews.Proofs.Ranges.Enclosure
import ReactiveViews.Proofs.Ranges.Contiguous
import ReactiveViews.Proofs.Composing.Slot
import ReactiveViews.Proofs.Currency.Current
import ReactiveViews.Proofs.Currency.TwoWay
import ReactiveViews.Proofs.Observing.Readers
import ReactiveViews.Proofs.Observing.Careers
import ReactiveViews.Proofs.Repeats.Refused
import ReactiveViews.Proofs.Repeats.Letting
import ReactiveViews.Proofs.Repeats.Tenants
import ReactiveViews.Proofs.Inheritance
import ReactiveViews.Proofs.Turns
import ReactiveViews.Proofs.Seniority
import ReactiveViews.Proofs.Silence
import ReactiveViews.Proofs.Positions.Positioned
