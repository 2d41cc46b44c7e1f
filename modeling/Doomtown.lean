import Doomtown.CardText.Sheet
import Doomtown.Catalog
import Doomtown.Main
import Doomtown.Proofs.Board
import Doomtown.Proofs.Rollback
import Doomtown.Proofs.Moment
import Doomtown.Proofs.Scheduler
import Doomtown.Proofs.Passage
import Doomtown.Proofs.Deeds
import Doomtown.Proofs.LifeCycle
import Doomtown.Proofs.UsageLimit
import Doomtown.Proofs.TriggerWindow
import Doomtown.Proofs.Retraction
import Doomtown.Proofs.TakeBack
import Doomtown.Proofs.WindowTurns
import Doomtown.Proofs.Conservation
import Doomtown.Proofs.UsageCount
import Doomtown.Proofs.TargetChoice
import Doomtown.Proofs.DoubleOffer
import Doomtown.Proofs.Posting
import Doomtown.Proofs.Requests
import Doomtown.Proofs.Ledger
import Doomtown.Proofs.Suspension
import Doomtown.Proofs.StrandedCards
import Doomtown.Proofs.Headline
import Doomtown.Proofs.Prepayment
import Doomtown.Proofs.FollowUps
import Doomtown.Proofs.PlayEvents
import Doomtown.Proofs.Logging
import Doomtown.Proofs.RoundBoundary
import Doomtown.Proofs.OwnLatest
import Doomtown.Proofs.JointPayment
import Doomtown.Proofs.Refund
import Doomtown.Proofs.LaterPayments
import Doomtown.Proofs.SavedValues
import Doomtown.Proofs.JsonTokens
import Doomtown.Proofs.SavedBoards
import Doomtown.Proofs.JsonText
import Doomtown.Proofs.MenuClicks
import Doomtown.Proofs.FilledSlots
import Doomtown.Proofs.EarlierTargets
import Doomtown.Proofs.AcceptedOffers
import Doomtown.Proofs.Rendering
import Doomtown.Proofs.Matches
import Doomtown.Proofs.OpenPrompts
import Doomtown.Proofs.RemainingUses
import Doomtown.Proofs.MeteredTriggers
import Doomtown.Proofs.CalmScripts
import Doomtown.Proofs.ChainTurns
import Doomtown.Proofs.TriggerChains
import Doomtown.Proofs.Printing
import Doomtown.Proofs.Maneuvers
import Doomtown.Proofs.Hands
import Doomtown.Proofs.ForcedTriggers
import Doomtown.Proofs.Showdown
import Doomtown.Proofs.RetractionStacks
import Doomtown.Proofs.OneStepInFlight
